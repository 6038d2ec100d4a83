import RubberOS.Model.Ps2Hid
import RubberOS.Proofs.Ringbuffer
import RubberOS.ToMathlib.LabelledRuns

/-! # Mouse packets through the shared queue

The bytes of the mouse pass through a queue that the keyboard shares and that drops a byte when it
is full. The decoder frames by position alone. As long as each packet is accepted or refused as a
whole, the events passed on are the accepted packets in order. A packet of which only a part is
accepted shifts the frame for good.
-/

namespace RubberOS.Soundness.MouseFraming

open Model Model.Collections Model.Interrupt Model.Ps2 LabelledRuns

/-- The queue and the decoders, with the bytes that the mouse has sent, the numbers of those that the
queue accepted, and the events passed on. -/
structure State where
  queue : Ringbuffer IntrMsg
  keyboard : Ps2Keyboard
  mouse : Ps2Mouse
  sent : List (BitVec 8)
  taken : List ℕ
  events : List HidMouseEvent

inductive Event where
  | keyboard (code : BitVec 8)
  | mouse (code : BitVec 8)
  | pop

def initial (msgBuffer : ℕ → IntrMsg) : State := ⟨interruptInit msgBuffer, ps2KeyboardInit, ps2MouseInit, [], [], []⟩

/-- One interrupt, or one message handled by the main loop. -/
def exec (s : State) : Event → Result State
  | .keyboard code => return { s with queue := ← isrImplKeyboard s.queue code }
  | .mouse code => do
    let queue ← isrImplMouse s.queue code
    return { s with queue, sent := s.sent ++ [code],
                    taken := if ringbufferIsFull s.queue then s.taken else s.taken ++ [s.sent.length] }
  | .pop => do
    let (found, queue) ← intrQueueTryPop s.queue
    match found with
    | none => return { s with queue }
    | some ⟨.keyboard, data⟩ =>
      let (_, keyboard) ← intrMsgOnKeyboard s.keyboard ⟨.keyboard, data⟩
      return { s with queue, keyboard }
    | some ⟨.mouse, data⟩ =>
      let (found, mouse) ← intrMsgOnMouse s.mouse ⟨.mouse, data⟩
      return { s with queue, mouse, events := s.events ++ found.toList }

/-- A byte inside a packet is accepted exactly when the packet's first byte was. -/
def PacketWhole (s : State) : Event → Prop
  | .mouse _ => s.sent.length % 3 ≠ 0 → (ringbufferIsFull s.queue = false ↔ s.sent.length / 3 * 3 ∈ s.taken)
  | _ => True

/-- The byte with this number. -/
def State.byte (s : State) (i : ℕ) : BitVec 8 := s.sent.getD i 0

/-- The event that the packet with this number stands for. -/
def State.packet (s : State) (k : ℕ) : HidMouseEvent :=
  packetEvent (s.byte (3 * k)) (s.byte (3 * k + 1)) (s.byte (3 * k + 2))

/-- The events passed on are those of complete packets that the mouse sent, in order and each at most
once. -/
def SinglePackets (s : State) : Prop :=
  ∃ packets : List ℕ, packets.Pairwise (· < ·) ∧ (∀ k ∈ packets, 3 * k + 2 < s.sent.length) ∧
    s.events = packets.map s.packet

/-! ## Frames of three -/

section Frames

variable {α : Type}

def flat (frames : List (α × α × α)) : List α := frames.flatMap fun f => [f.1, f.2.1, f.2.2]

theorem flat_cons (f : α × α × α) (frames : List (α × α × α)) :
    flat (f :: frames) = f.1 :: f.2.1 :: f.2.2 :: flat frames := rfl

@[simp] theorem flat_nil : flat ([] : List (α × α × α)) = [] := rfl

private theorem mem_flat {f : α × α × α} {frames : List (α × α × α)} (member : f ∈ frames) :
    f.1 ∈ flat frames ∧ f.2.1 ∈ flat frames ∧ f.2.2 ∈ flat frames := by
  simp only [flat, List.mem_flatMap]
  exact ⟨⟨f, member, by simp⟩, ⟨f, member, by simp⟩, ⟨f, member, by simp⟩⟩

private theorem flat_append (first second : List (α × α × α)) : flat (first ++ second) = flat first ++ flat second :=
  List.flatMap_append

/-- Frames at the front of framed items are the first of its frames. -/
private theorem frames_of_front {first second : List (α × α × α)} {rest part : List α} (short : part.length < 3)
    (front : flat first ++ rest <+: flat second ++ part) : first <+: second := by
  induction first generalizing second with
  | nil => exact List.nil_prefix
  | cons f first ih =>
    cases second with
    | nil =>
      have lengths := front.length_le
      simp only [flat_cons, List.cons_append, List.length_cons, flat_nil, List.nil_append] at lengths
      omega
    | cons g second =>
      simp only [flat_cons, List.cons_append, List.cons_prefix_cons] at front
      obtain ⟨one, two, three, rest⟩ := front
      rw [List.cons_prefix_cons]
      exact ⟨Prod.ext one (Prod.ext two three), ih rest⟩

end Frames

/-! ## The bytes in the queue and in the decoder -/

/-- The mouse's data among the messages. -/
def mouseData (msgs : List IntrMsg) : List (BitVec 8) :=
  (msgs.filter fun msg => msg.type = .mouse).map (·.data)

/-- The event of a frame of byte numbers. -/
def State.frameEvent (s : State) (f : ℕ × ℕ × ℕ) : HidMouseEvent :=
  packetEvent (s.byte f.1) (s.byte f.2.1) (s.byte f.2.2)

/-- The decoder has framed the bytes with these numbers by position. -/
structure Decoded (s : State) (handled : List ℕ) (frames : List (ℕ × ℕ × ℕ)) (rest : List ℕ) : Prop where
  split : handled = flat frames ++ rest
  short : rest.length < 3
  index : s.mouse.packetIndex = rest.length
  packet : ∀ i (bound : i < rest.length), s.mouse.packet i = s.byte rest[i]
  events : s.events = frames.map s.frameEvent

/-- Accepted bytes are handled in order: the rest of them is in the queue. -/
def InOrder (s : State) : Prop :=
  ∃ handled pending msgs frames rest, s.taken = handled ++ pending ∧ Holding s.queue msgs ∧
    mouseData msgs = pending.map s.byte ∧ Decoded s handled frames rest ∧ ∀ i ∈ s.taken, i < s.sent.length

section Order

variable {s t : State} {e : Event} {handled : List ℕ} {frames : List (ℕ × ℕ × ℕ)} {rest : List ℕ}

private theorem initial_inOrder (msgBuffer : ℕ → IntrMsg) : InOrder (initial msgBuffer) :=
  ⟨[], [], [], [], [], rfl, holding_init msgBuffer, rfl,
    ⟨rfl, by decide, rfl, fun _ bound => absurd bound (Nat.not_lt_zero _),
    rfl⟩, fun _ member => (List.not_mem_nil member).elim⟩

private theorem mouseData_append (msgs : List IntrMsg) (type : IntrMsgType) (data : BitVec 8) :
    mouseData (msgs ++ [⟨type, data⟩]) = mouseData msgs ++ if type = .mouse then [data] else [] := by
  rw [mouseData, List.filter_append, List.map_append, ← mouseData]
  cases type <;> rfl

/-- What the mouse sends later does not change the bytes it has sent. -/
private theorem byte_append {code : BitVec 8} {i : ℕ} (bound : i < s.sent.length) :
    (s.sent ++ [code]).getD i 0 = s.byte i := by
  rw [State.byte, List.getD_eq_getElem?_getD, List.getElem?_append_left bound, ← List.getD_eq_getElem?_getD]

/-- The decoder's state does not depend on later bytes. -/
private theorem Decoded.congr (decoded : Decoded s handled frames rest) (mouse : t.mouse = s.mouse)
    (events : t.events = s.events)
    (bytes : ∀ i ∈ handled, t.byte i = s.byte i) : Decoded t handled frames rest := by
  obtain ⟨split, short, index, packet, own⟩ := decoded
  refine ⟨split, short, by rw [mouse, index], fun i bound => ?_, ?_⟩
  · rw [mouse, packet i bound, bytes]
    rw [split]
    exact List.mem_append_right _ (List.getElem_mem bound)
  · rw [events, own]
    refine List.map_congr_left fun f member => ?_
    obtain ⟨first, second, third⟩ := mem_flat member
    simp only [State.frameEvent]
    rw [split] at bytes
    rw [bytes _ (List.mem_append_left _ first), bytes _ (List.mem_append_left _ second),
      bytes _ (List.mem_append_left _ third)]

/-- One more byte completes a frame or waits for the next ones. -/
private theorem Decoded.put (decoded : Decoded s handled frames rest) {i : ℕ} {data : BitVec 8}
    (value : s.byte i = data) {found : Option HidMouseEvent} {mouse : Ps2Mouse}
    (ran : ps2MousePutByte s.mouse data = .ok (found, mouse))
    (same : t.mouse = mouse ∧ t.events = s.events ++ found.toList ∧ t.sent = s.sent) :
    ∃ frames' rest', Decoded t (handled ++ [i]) frames' rest' := by
  obtain ⟨split, short, index, packet, events⟩ := decoded
  obtain ⟨mouseEq, eventsEq, sentEq⟩ := same
  have bytes (j : ℕ) : t.byte j = s.byte j := by rw [State.byte, sentEq, State.byte]
  have frameEvent : t.frameEvent = s.frameEvent := by
    funext f
    simp only [State.frameEvent, bytes]
  have stored (j : ℕ) (bound : j < (rest ++ [i]).length) :
      Function.update s.mouse.packet s.mouse.packetIndex data j = s.byte (rest ++ [i])[j] := by
    rw [index]
    rcases Nat.lt_or_ge j rest.length with old | new
    · rw [Function.update_of_ne (Nat.ne_of_lt old), packet j old, List.getElem_append_left old]
    · have last : j = rest.length := by
        rw [List.length_append, List.length_singleton] at bound
        omega
      subst last
      rw [Function.update_self, List.getElem_concat_length rfl, value]
  rw [ps2MousePutByte, index, if_neg (by omega)] at ran
  rcases Nat.lt_or_ge (rest.length + 1) 3 with more | done
  · rw [if_pos more] at ran
    cases ran
    refine ⟨frames, rest ++ [i], ?_, by simpa using more, ?_, fun j bound => ?_, ?_⟩
    · rw [split, List.append_assoc]
    · rw [mouseEq, List.length_append, List.length_singleton]
    · rw [mouseEq, bytes]
      have here := stored j bound
      rwa [index] at here
    · rw [eventsEq, events, frameEvent, Option.toList_none, List.append_nil]
  · rw [if_neg (Nat.not_lt_of_ge done)] at ran
    cases ran
    obtain ⟨a, b, rfl⟩ : ∃ a b, rest = [a, b] := List.length_eq_two.mp (by omega)
    refine ⟨frames ++ [(a, b, i)], [], ?_, by decide, ?_, fun j bound => absurd bound (Nat.not_lt_zero j), ?_⟩
    · rw [split, flat_append, List.append_assoc, List.append_nil]
      rfl
    · rw [mouseEq]
      rfl
    · have first := stored 0 (by simp)
      have second := stored 1 (by simp)
      have third := stored 2 (by simp)
      rw [index] at first second third
      rw [eventsEq, events, frameEvent, List.map_append, Option.toList_some]
      congr 2
      rw [first, second, third]
      rfl

/-- A message is handled in the order in which it was pushed. -/
private theorem InOrder.step (inOrder : InOrder s) (ran : exec s e = .ok t) : InOrder t := by
  obtain ⟨handled, pending, msgs, frames, rest, split, holding, data, decoded, sent⟩ := inOrder
  cases e with
  | keyboard code =>
    rcases holding.push ⟨.keyboard, code⟩ with ⟨_, refused⟩ | ⟨_, queue, pushed, after⟩
    · rw [exec, isrImplKeyboard, refused] at ran
      cases ran
      exact ⟨handled, pending, msgs, frames, rest, split, holding, data, decoded, sent⟩
    · rw [exec, isrImplKeyboard, pushed] at ran
      cases ran
      refine ⟨handled, pending, _, frames, rest, split, after, ?_, decoded.congr rfl rfl fun _ _ => rfl, sent⟩
      rw [mouseData_append, if_neg (by decide), List.append_nil]
      exact data
  | mouse code =>
    have old : ∀ i ∈ handled ++ pending, (s.sent ++ [code]).getD i 0 = s.byte i :=
      fun i member => byte_append (sent i (split ▸ member))
    have bytes : pending.map (fun i => (s.sent ++ [code]).getD i 0) = pending.map s.byte :=
      List.map_congr_left fun i member => old i (List.mem_append_right _ member)
    have later : ∀ i ∈ s.taken, i < (s.sent ++ [code]).length := fun i member => by
      rw [List.length_append]
      exact Nat.lt_add_right _ (sent i member)
    have full : ringbufferIsFull s.queue = true ↔ msgs.length = INTR_QUEUE_SIZE :=
      holding.2 ▸ holding.1.isFull_iff
    rcases holding.push ⟨.mouse, code⟩ with ⟨isFull, refused⟩ | ⟨room, queue, pushed, after⟩
    · rw [exec, isrImplMouse, refused, if_pos (full.mpr isFull)] at ran
      cases ran
      exact ⟨handled, pending, msgs, frames, rest, split, holding, data.trans bytes.symm,
        decoded.congr rfl rfl fun i member => old i (List.mem_append_left _ member), later⟩
    · rw [exec, isrImplMouse, pushed, if_neg fun isFull => Nat.ne_of_lt room (full.mp isFull)] at ran
      cases ran
      refine ⟨handled, pending ++ [s.sent.length], _, frames, rest, ?_, after, ?_,
        decoded.congr rfl rfl fun i member => old i (List.mem_append_left _ member), fun i member => ?_⟩
      · dsimp only
        rw [split, List.append_assoc]
      · rw [mouseData_append, if_pos rfl, data, List.map_append, ← bytes, List.map_singleton, State.byte,
          List.getD_eq_getElem?_getD, List.getElem?_concat_length]
        rfl
      · rcases List.mem_append.mp member with before | last
        · exact later i before
        · rw [List.mem_singleton.mp last, List.length_append]
          exact Nat.lt_add_one _
  | pop =>
    cases msgs with
    | nil =>
      rw [exec, holding.pop_empty] at ran
      cases ran
      exact ⟨handled, pending, [], frames, rest, split, holding, data, decoded, sent⟩
    | cons msg msgs =>
      obtain ⟨queue, popped, after⟩ := holding.pop
      rw [exec, popped, Except.ok_bind] at ran
      obtain ⟨type, value⟩ := msg
      cases type with
      | keyboard =>
        obtain ⟨⟨_, keyboard⟩, _, ran⟩ := Except.bind_ok_iff.mp ran
        cases ran
        exact ⟨handled, pending, msgs, frames, rest, split, after, data,
          decoded.congr rfl rfl fun _ _ => rfl, sent⟩
      | mouse =>
        obtain ⟨⟨found, mouse⟩, put, ran⟩ := Except.bind_ok_iff.mp ran
        cases ran
        cases pending with
        | nil => cases data
        | cons i pending =>
          obtain ⟨first, others⟩ := List.cons.inj data
          obtain ⟨frames', rest', decoded'⟩ := decoded.put
            (t := ⟨queue, s.keyboard, mouse, s.sent, s.taken, s.events ++ found.toList⟩) first.symm put ⟨rfl, rfl, rfl⟩
          refine ⟨handled ++ [i], pending, msgs, frames', rest', ?_, after, others, decoded', sent⟩
          rw [List.append_assoc]
          exact split

end Order

/-! ## Whole packets -/

/-- The byte numbers of a packet. -/
def packetFrame (k : ℕ) : ℕ × ℕ × ℕ := (3 * k, 3 * k + 1, 3 * k + 2)

/-- The accepted bytes are whole packets and what was sent so far of the last one. -/
def Whole (s : State) : Prop :=
  ∃ packets part : List ℕ, packets.Pairwise (· < ·) ∧ (∀ k ∈ packets, k < s.sent.length / 3) ∧
    s.taken = flat (packets.map packetFrame) ++ part ∧
    (part = [] ∨ part = List.range' (s.sent.length / 3 * 3) (s.sent.length % 3))

section Packets

variable {s t : State} {e : Event} {packets : List ℕ} {n : ℕ}

/-- No byte of an earlier packet has the number of a later one. -/
private theorem not_mem_flat (before : ∀ k ∈ packets, k < n) : n * 3 ∉ flat (packets.map packetFrame) := by
  simp only [flat, List.mem_flatMap, List.mem_map, not_exists, not_and]
  rintro _ ⟨k, member, rfl⟩ inside
  have early := before k member
  simp only [packetFrame, List.mem_cons, List.not_mem_nil, or_false] at inside
  omega

private theorem initial_whole (msgBuffer : ℕ → IntrMsg) : Whole (initial msgBuffer) :=
  ⟨[], [], .nil, fun _ member => (List.not_mem_nil member).elim, rfl, .inl rfl⟩

/-- The packet's first byte is accepted exactly when all of the packet's bytes so far are. -/
private theorem Whole.part_iff {part : List ℕ} (split : s.taken = flat (packets.map packetFrame) ++ part)
    (complete : ∀ k ∈ packets, k < s.sent.length / 3) (started : s.sent.length % 3 ≠ 0)
    (own : part = [] ∨ part = List.range' (s.sent.length / 3 * 3) (s.sent.length % 3)) :
    s.sent.length / 3 * 3 ∈ s.taken ↔ part = List.range' (s.sent.length / 3 * 3) (s.sent.length % 3) := by
  rw [split, List.mem_append, or_iff_right (not_mem_flat complete)]
  constructor
  · intro member
    cases own with
    | inl empty =>
      rw [empty] at member
      cases member
    | inr whole => exact whole
  · intro whole
    rw [whole, List.mem_range'_1]
    omega

/-- A byte of the mouse keeps the accepted packets whole. -/
private theorem Whole.mouse {code : BitVec 8} (whole : Whole s) (allowed : PacketWhole s (.mouse code))
    (sent : t.sent.length = s.sent.length + 1)
    (taken : t.taken = if ringbufferIsFull s.queue then s.taken else s.taken ++ [s.sent.length]) :
    Whole t := by
  obtain ⟨packets, part, ascending, complete, split, own⟩ := whole
  have later : ∀ k ∈ packets, k < t.sent.length / 3 := fun k member => by
    have early := complete k member
    omega
  cases full : ringbufferIsFull s.queue with
  | true =>
    rw [full, if_pos rfl] at taken
    have empty : part = [] := by
      rcases eq_or_ne (s.sent.length % 3) 0 with fresh | started
      · rw [fresh, List.range'_zero, or_self] at own
        exact own
      · refine own.resolve_right fun whole => ?_
        have accepted := (allowed started).mpr ((Whole.part_iff split complete started own).mpr whole)
        rw [full] at accepted
        cases accepted
    exact ⟨packets, [], ascending, later, by rw [taken, split, empty], .inl rfl⟩
  | false =>
    rw [full, if_neg Bool.false_ne_true] at taken
    have whole : part = List.range' (s.sent.length / 3 * 3) (s.sent.length % 3) := by
      rcases eq_or_ne (s.sent.length % 3) 0 with fresh | started
      · rw [fresh, List.range'_zero, or_self] at own
        rw [own, fresh, List.range'_zero]
      · exact (Whole.part_iff split complete started own).mp ((allowed started).mp full)
    have grown : part ++ [s.sent.length] = List.range' (s.sent.length / 3 * 3) (s.sent.length % 3 + 1) := by
      rw [whole, List.range'_concat, Nat.one_mul, Nat.div_add_mod']
    rcases Nat.lt_or_eq_of_le (Nat.succ_le_of_lt (Nat.mod_lt s.sent.length (by decide : 3 > 0)))
      with more | last
    · refine ⟨packets, part ++ [s.sent.length], ascending, later,
        by rw [taken, split, List.append_assoc], .inr ?_⟩
      have quotient : t.sent.length / 3 = s.sent.length / 3 := by omega
      have remainder : t.sent.length % 3 = s.sent.length % 3 + 1 := by omega
      rw [grown, quotient, remainder]
    · refine ⟨packets ++ [s.sent.length / 3], [], ?_, fun k member => ?_, ?_, .inl rfl⟩
      · rw [List.pairwise_append]
        refine ⟨ascending, List.pairwise_singleton _ _, fun k member next isNext => ?_⟩
        rw [List.mem_singleton.mp isNext]
        exact complete k member
      · rcases List.mem_append.mp member with before | isNext
        · exact later k before
        · rw [List.mem_singleton.mp isNext]
          omega
      · rw [taken, split, List.append_assoc, grown, List.map_append, flat_append, List.append_nil,
          Nat.mul_comm, ← Nat.succ_eq_add_one, last]
        rfl

private theorem Whole.step (whole : Whole s) (step : Guarded PacketWhole exec s e t) : Whole t := by
  obtain ⟨allowed, ran⟩ := step
  cases e with
  | keyboard code =>
    obtain ⟨queue, _, ran⟩ := Except.bind_ok_iff.mp ran
    cases ran
    exact whole
  | mouse code =>
    obtain ⟨queue, _, ran⟩ := Except.bind_ok_iff.mp ran
    cases ran
    exact whole.mouse allowed (by rw [List.length_append, List.length_singleton]) rfl
  | pop =>
    obtain ⟨⟨found, queue⟩, _, ran⟩ := Except.bind_ok_iff.mp ran
    cases found with
    | none =>
      cases ran
      exact whole
    | some msg =>
      obtain ⟨type, data⟩ := msg
      cases type with
      | keyboard =>
        obtain ⟨⟨_, keyboard⟩, _, ran⟩ := Except.bind_ok_iff.mp ran
        cases ran
        exact whole
      | mouse =>
        obtain ⟨⟨found, mouse⟩, _, ran⟩ := Except.bind_ok_iff.mp ran
        cases ran
        exact whole

/-- Whole packets handled in order are decoded packet by packet. -/
private theorem Whole.singlePackets (whole : Whole s) (inOrder : InOrder s) : SinglePackets s := by
  obtain ⟨packets, part, ascending, complete, split, own⟩ := whole
  obtain ⟨handled, pending, msgs, frames, rest, order, _, _, decoded, _⟩ := inOrder
  have short : part.length < 3 := by
    rcases own with rfl | rfl
    · decide
    · rw [List.length_range']
      exact Nat.mod_lt _ (by decide)
  have front : flat frames ++ rest <+: flat (packets.map packetFrame) ++ part := by
    rw [← split, order, ← decoded.split]
    exact List.prefix_append handled pending
  have first := List.prefix_iff_eq_take.mp (frames_of_front short front)
  rw [← List.map_take] at first
  refine ⟨packets.take frames.length, ascending.sublist (List.take_sublist _ _), fun k member => ?_, ?_⟩
  · have before := complete k (List.mem_of_mem_take member)
    omega
  · rw [decoded.events, first, List.map_map, ← first]
    rfl

/-- In every run in which each packet is accepted or refused as a whole, every event passed on is the
decoding of one packet. -/
theorem single_packets {msgBuffer : ℕ → IntrMsg} {es : List Event}
    (run : Run (Guarded PacketWhole exec) (initial msgBuffer) es s) : SinglePackets s := by
  have inOrder : InOrder s := run.invariant (initial_inOrder msgBuffer) fun _ _ _ inOrder step =>
    inOrder.step step.2
  have whole : Whole s := run.invariant (initial_whole msgBuffer) fun _ _ _ whole step => whole.step step
  exact whole.singlePackets inOrder

/-- A step without a condition on packets. -/
abbrev Step (s : State) (e : Event) (t : State) : Prop := exec s e = .ok t

/-- A run in which each packet is accepted or refused as a whole. -/
abbrev WholeRun := Run (Guarded PacketWhole exec)

private theorem WholeRun.steps {es : List Event} (run : WholeRun s es t) : Run Step s es t := by
  induction run with
  | nil => exact .nil
  | snoc _ last ih => exact ih.snoc last.2

private theorem keyA_keeps : ∃ found, intrMsgOnKeyboard ps2KeyboardInit ⟨.keyboard, 0x1e⟩ =
      .ok (found, ps2KeyboardInit) :=
  ⟨_, rfl⟩

/-- Key presses fill the queue. -/
private theorem fill_run {msgs : List IntrMsg} {queue : Ringbuffer IntrMsg} (holding : Holding queue msgs)
    (s : State) (n : ℕ) (room : msgs.length + n ≤ INTR_QUEUE_SIZE) :
    ∃ queue', Holding queue' (msgs ++ List.replicate n ⟨.keyboard, 0x1e⟩) ∧
      WholeRun { s with queue } (List.replicate n (.keyboard 0x1e)) { s with queue := queue' } := by
  induction n with
  | zero => exact ⟨queue, by simpa using holding, .nil⟩
  | succ n ih =>
    obtain ⟨middle, held, run⟩ := ih (Nat.le_of_succ_le room)
    obtain ⟨_, queue', pushed, after⟩ :=
      (held.push ⟨.keyboard, 0x1e⟩).resolve_left fun full => by
        have size := full.1
        rw [List.length_append, List.length_replicate] at size
        omega
    refine ⟨queue', ?_, ?_⟩
    · rw [List.replicate_succ', ← List.append_assoc]
      exact after
    · rw [List.replicate_succ']
      refine run.snoc ⟨trivial, ?_⟩
      rw [exec, isrImplKeyboard, pushed]
      rfl

/-- The main loop handles the key presses. -/
private theorem drain_run {rest : List IntrMsg} (s : State) (n : ℕ) {queue : Ringbuffer IntrMsg}
    (holding : Holding queue (List.replicate n ⟨.keyboard, 0x1e⟩ ++ rest))
    (fresh : s.keyboard = ps2KeyboardInit) :
    ∃ queue', Holding queue' rest ∧
      WholeRun { s with queue } (List.replicate n .pop) { s with queue := queue' } := by
  induction n generalizing queue with
  | zero => exact ⟨queue, holding, .nil⟩
  | succ n ih =>
    rw [List.replicate_succ, List.cons_append] at holding
    obtain ⟨middle, popped, after⟩ := holding.pop
    obtain ⟨queue', held, run⟩ := ih after
    obtain ⟨found, handled⟩ := keyA_keeps
    refine ⟨queue', held, ?_⟩
    rw [List.replicate_succ, ← List.singleton_append]
    refine (Run.single ⟨trivial, ?_⟩).append run
    rw [exec, popped, Except.ok_bind]
    dsimp only
    rw [fresh, handled, Except.ok_bind, ← fresh]
    rfl

/-- A byte of the mouse finds room. -/
private theorem mouse_run {msgs : List IntrMsg} (holding : Holding s.queue msgs)
    (room : msgs.length < INTR_QUEUE_SIZE) (code : BitVec 8) :
    ∃ queue', Holding queue' (msgs ++ [⟨.mouse, code⟩]) ∧ Step s (.mouse code)
      { s with queue := queue', sent := s.sent ++ [code], taken := s.taken ++ [s.sent.length] } := by
  have notFull : ¬ ringbufferIsFull s.queue = true := fun full => by
    rw [holding.1.isFull_iff, holding.2] at full
    omega
  obtain ⟨_, queue', pushed, after⟩ :=
    (holding.push ⟨.mouse, code⟩).resolve_left fun full => Nat.ne_of_lt room full.1
  refine ⟨queue', after, ?_⟩
  rw [Step, exec, isrImplMouse, pushed, if_neg notFull]
  rfl

/-- A byte of the mouse is lost in a full queue. -/
private theorem lost_run {msgs : List IntrMsg} (holding : Holding s.queue msgs) (full : msgs.length = INTR_QUEUE_SIZE)
    (code : BitVec 8) : Step s (.mouse code) { s with sent := s.sent ++ [code] } := by
  have isFull : ringbufferIsFull s.queue = true := by rw [holding.1.isFull_iff, holding.2, full]
  obtain ⟨_, refused⟩ := (holding.push ⟨.mouse, code⟩).resolve_right fun room => Nat.ne_of_lt room.1 full
  rw [Step, exec, isrImplMouse, refused, if_pos isFull]
  rfl

/-- The main loop hands a byte to the decoder. -/
private theorem handle_run {data : BitVec 8} {msgs : List IntrMsg}
    (holding : Holding s.queue (⟨.mouse, data⟩ :: msgs))
    {found : Option HidMouseEvent} {mouse : Ps2Mouse}
    (ran : ps2MousePutByte s.mouse data = .ok (found, mouse)) :
    ∃ queue', Holding queue' msgs ∧
      Step s .pop { s with queue := queue', mouse, events := s.events ++ found.toList } := by
  obtain ⟨queue', popped, after⟩ := holding.pop
  refine ⟨queue', after, ?_⟩
  rw [Step, exec, popped, Except.ok_bind]
  dsimp only
  rw [intrMsgOnMouse, ran]
  rfl


/-- Three bytes from a fresh decoder on make up an event. -/
private theorem put_three (first second third : BitVec 8) : ∃ one two three : Ps2Mouse,
    ps2MousePutByte ps2MouseInit first = .ok (none, one) ∧ ps2MousePutByte one second = .ok (none, two) ∧
      ps2MousePutByte two third = .ok (some (packetEvent first second third), three) :=
  ⟨_, _, _, rfl, rfl, rfl⟩

/-- Key presses fill the queue, so that a packet is refused; the one after it is decoded. -/
theorem single_packets_refused : ∃ es s, Run (Guarded PacketWhole exec) (initial fun _ => ⟨.keyboard, 0⟩) es s ∧
    s.sent = [8, 9, 9] ++ [0x08, 1, 2] ∧ s.taken = [3, 4, 5] ∧ s.events = [packetEvent 0x08 1 2] ∧ SinglePackets s := by
  have held₀ := holding_init fun _ => ⟨.keyboard, 0⟩
  obtain ⟨one, two, three, put₁, put₂, put₃⟩ := put_three 0x08 1 2
  obtain ⟨queue₁, held₁, filled⟩ := fill_run held₀ (initial fun _ => ⟨.keyboard, 0⟩) 4096 (by decide)
  rw [List.nil_append] at held₁
  have full : (List.replicate 4096 (⟨.keyboard, 0x1e⟩ : IntrMsg)).length = INTR_QUEUE_SIZE := List.length_replicate
  have lost₁ := lost_run (s := ⟨queue₁, ps2KeyboardInit, ps2MouseInit, [], [], []⟩) held₁ full 8
  have lost₂ := lost_run (s := ⟨queue₁, ps2KeyboardInit, ps2MouseInit, [8], [], []⟩) held₁ full 9
  have lost₃ := lost_run (s := ⟨queue₁, ps2KeyboardInit, ps2MouseInit, [8, 9], [], []⟩) held₁ full 9
  obtain ⟨queue₂, held₂, drained⟩ :=
    @drain_run [] ⟨queue₁, ps2KeyboardInit, ps2MouseInit, [8, 9, 9], [], []⟩ 4096 queue₁
      (by rw [List.append_nil]; exact held₁) rfl
  obtain ⟨queue₃, held₃, sent₁⟩ :=
    mouse_run (s := ⟨queue₂, ps2KeyboardInit, ps2MouseInit, [8, 9, 9], [], []⟩) held₂ (by decide) 0x08
  obtain ⟨queue₄, held₄, sent₂⟩ :=
    mouse_run (s := ⟨queue₃, ps2KeyboardInit, ps2MouseInit, [8, 9, 9, 0x08], [3], []⟩) held₃ (by decide) 1
  obtain ⟨queue₅, held₅, sent₃⟩ :=
    mouse_run (s := ⟨queue₄, ps2KeyboardInit, ps2MouseInit, [8, 9, 9, 0x08, 1], [3, 4], []⟩) held₄ (by decide) 2
  obtain ⟨queue₆, held₆, popped₁⟩ :=
    handle_run (s := ⟨queue₅, ps2KeyboardInit, ps2MouseInit, [8, 9, 9, 0x08, 1, 2], [3, 4, 5], []⟩) held₅ put₁
  obtain ⟨queue₇, held₇, popped₂⟩ :=
    handle_run (s := ⟨queue₆, ps2KeyboardInit, one, [8, 9, 9, 0x08, 1, 2], [3, 4, 5], []⟩) held₆ put₂
  obtain ⟨queue₈, held₈, popped₃⟩ :=
    handle_run (s := ⟨queue₇, ps2KeyboardInit, two, [8, 9, 9, 0x08, 1, 2], [3, 4, 5], []⟩) held₇ put₃
  have noRoom : ringbufferIsFull queue₁ = true := by rw [held₁.1.isFull_iff, held₁.2, full]
  have room {queue : Ringbuffer IntrMsg} {msgs : List IntrMsg} (held : Holding queue msgs)
      (few : msgs.length < INTR_QUEUE_SIZE) : ringbufferIsFull queue = false := by
    rw [Bool.eq_false_iff, ne_eq, held.1.isFull_iff, held.2]
    exact Nat.ne_of_lt few
  -- at the bytes inside a packet the queue is as it was at the first one
  have lostWhole (s : State) (full : ringbufferIsFull s.queue = true) (none : s.taken = []) (code : BitVec 8) :
      PacketWhole s (.mouse code) :=
    fun _ => iff_of_false (by rw [full]; exact nofun) (by rw [none]; exact List.not_mem_nil)
  have whole₁ : PacketWhole ⟨queue₂, ps2KeyboardInit, ps2MouseInit, [8, 9, 9], [], []⟩ (.mouse 0x08) :=
    fun started => absurd (Nat.mod_self 3) started
  have whole₂ : PacketWhole ⟨queue₃, ps2KeyboardInit, ps2MouseInit, [8, 9, 9, 0x08], [3], []⟩ (.mouse 1) :=
    fun _ => iff_of_true (room held₃ (by decide)) (by simp)
  have whole₃ : PacketWhole ⟨queue₄, ps2KeyboardInit, ps2MouseInit, [8, 9, 9, 0x08, 1], [3, 4], []⟩ (.mouse 2) :=
    fun _ => iff_of_true (room held₄ (by decide)) (by simp)
  have pop (s : State) : PacketWhole s .pop := trivial
  have refused := ((filled.snoc ⟨lostWhole _ noRoom rfl _, lost₁⟩).snoc ⟨lostWhole _ noRoom rfl _, lost₂⟩).snoc
    ⟨lostWhole _ noRoom rfl _, lost₃⟩
  have accepted := (((refused.append drained).snoc ⟨whole₁, sent₁⟩).snoc ⟨whole₂, sent₂⟩).snoc ⟨whole₃, sent₃⟩
  have run := ((accepted.snoc ⟨pop _, popped₁⟩).snoc ⟨pop _, popped₂⟩).snoc ⟨pop _, popped₃⟩
  exact ⟨_, _, run, rfl, rfl, rfl, single_packets run⟩

/-- When the queue takes only the first byte of a packet, the next event is made of that byte and the
first two of the next packet. -/
theorem lost_bytes_mix_packets : ∃ es s, Run Step (initial fun _ => ⟨.keyboard, 0⟩) es s ∧
    s.sent = [0x08, 1, 0] ++ [0x08, 2, 3] ∧
    ∃ event ∈ s.events, ∀ k, 3 * k + 2 < s.sent.length → event ≠ s.packet k := by
  have held₀ := holding_init fun _ => ⟨.keyboard, 0⟩
  obtain ⟨one, two, three, put₁, put₂, put₃⟩ := put_three 0x08 0x08 2
  obtain ⟨queue₁, held₁, filled⟩ := fill_run held₀ (initial fun _ => ⟨.keyboard, 0⟩) 4095 (by decide)
  rw [List.nil_append] at held₁
  obtain ⟨queue₂, held₂, sent₁⟩ := mouse_run (s := ⟨queue₁, ps2KeyboardInit, ps2MouseInit, [], [], []⟩) held₁
    (by rw [List.length_replicate]; decide) 0x08
  have full : (List.replicate 4095 (⟨.keyboard, 0x1e⟩ : IntrMsg) ++ [(⟨.mouse, 0x08⟩ : IntrMsg)]).length =
      INTR_QUEUE_SIZE := by
    rw [List.length_append, List.length_replicate]
    rfl
  have lost₂ := lost_run (s := ⟨queue₂, ps2KeyboardInit, ps2MouseInit, [0x08], [0], []⟩) held₂ full 1
  have lost₃ := lost_run (s := ⟨queue₂, ps2KeyboardInit, ps2MouseInit, [0x08, 1], [0], []⟩) held₂ full 0
  obtain ⟨queue₃, held₃, drained⟩ :=
    drain_run ⟨queue₂, ps2KeyboardInit, ps2MouseInit, [0x08, 1, 0], [0], []⟩ 4095 held₂ rfl
  obtain ⟨queue₄, held₄, popped₁⟩ :=
    handle_run (s := ⟨queue₃, ps2KeyboardInit, ps2MouseInit, [0x08, 1, 0], [0], []⟩) held₃ put₁
  obtain ⟨queue₅, held₅, sent₄⟩ :=
    mouse_run (s := ⟨queue₄, ps2KeyboardInit, one, [0x08, 1, 0], [0], []⟩) held₄ (by decide) 0x08
  obtain ⟨queue₆, held₆, sent₅⟩ :=
    mouse_run (s := ⟨queue₅, ps2KeyboardInit, one, [0x08, 1, 0, 0x08], [0, 3], []⟩) held₅ (by decide) 2
  obtain ⟨queue₇, held₇, sent₆⟩ :=
    mouse_run (s := ⟨queue₆, ps2KeyboardInit, one, [0x08, 1, 0, 0x08, 2], [0, 3, 4], []⟩) held₆ (by decide) 3
  obtain ⟨queue₈, held₈, popped₂⟩ :=
    handle_run (s := ⟨queue₇, ps2KeyboardInit, one, [0x08, 1, 0, 0x08, 2, 3], [0, 3, 4, 5], []⟩) held₇ put₂
  obtain ⟨queue₉, held₉, popped₃⟩ :=
    handle_run (s := ⟨queue₈, ps2KeyboardInit, two, [0x08, 1, 0, 0x08, 2, 3], [0, 3, 4, 5], []⟩) held₈ put₃
  have run := (((((((((filled.steps.snoc sent₁).snoc lost₂).snoc lost₃).append drained.steps).snoc popped₁).snoc sent₄).snoc
    sent₅).snoc sent₆).snoc popped₂).snoc popped₃
  refine ⟨_, _, run, rfl, packetEvent 0x08 0x08 2, List.mem_append_right _ (List.mem_singleton_self _), ?_⟩
  intro k inside
  have sole : k = 0 ∨ k = 1 := by
    have bound : 3 * k + 2 < 6 := inside
    omega
  cases sole with
  | inl first =>
    rw [first]
    exact (by decide +kernel : packetEvent 0x08 0x08 2 ≠ packetEvent 0x08 1 0)
  | inr second =>
    rw [second]
    exact (by decide +kernel : packetEvent 0x08 0x08 2 ≠ packetEvent 0x08 2 3)

end Packets

end RubberOS.Soundness.MouseFraming
