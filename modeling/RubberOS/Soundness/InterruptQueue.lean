import RubberOS.Proofs.Ringbuffer
import RubberOS.ToMathlib.LabelledRuns

/-! # The interrupt queue is first in, first out

A run interleaves the pushes of interrupt handlers with the pops of the main loop, each of them one
step. The book keeps what the pushes accepted and what the pops returned. Its difference is what the
ring buffer holds, so the answers of every further call follow from it. The same holds for a ring
buffer of any length whose clients obey its assertions.
-/

namespace RubberOS.Soundness.InterruptQueue

open Model Model.Collections Model.Interrupt LabelledRuns

/-- A ring buffer with the items accepted by its pushes and those returned by its pops. -/
structure Book (α : Type) where
  rb : Ringbuffer α
  accepted : List α
  popped : List α

inductive Event (α : Type) where
  | push (x : α)
  | pop

def Book.start {α : Type} (rb : Ringbuffer α) : Book α := ⟨rb, [], []⟩

/-- One call on the interrupt queue. -/
def intrStep (s : Book IntrMsg) : Event IntrMsg → Result (Book IntrMsg)
  | .push msg => do
    let (done, rb) ← intrQueuePush s.rb msg
    return { s with rb, accepted := if done then s.accepted ++ [msg] else s.accepted }
  | .pop => do
    let (found, rb) ← intrQueueTryPop s.rb
    return { s with rb, popped := s.popped ++ found.toList }

/-- One call on a ring buffer. -/
def ringStep {α : Type} (s : Book α) : Event α → Result (Book α)
  | .push x => do
    let rb ← ringbufferPush s.rb x
    return { s with rb, accepted := s.accepted ++ [x] }
  | .pop => do
    let (x, rb) ← ringbufferPop s.rb
    return { s with rb, popped := s.popped ++ [x] }

/-- The pops have returned the first accepted messages in order. A push is refused exactly when the
queue's size of accepted messages is still unpopped, a pop exactly when none is, no call stops at an
assertion, and a refused call changes nothing. -/
structure IntrLaw (s : Book IntrMsg) : Prop where
  order : s.popped <+: s.accepted
  push : ∀ msg, ∃ done rb, intrQueuePush s.rb msg = .ok (done, rb) ∧
    (done = false ↔ s.accepted.length = s.popped.length + INTR_QUEUE_SIZE) ∧ (done = false → rb = s.rb)
  pop : ∃ found rb, intrQueueTryPop s.rb = .ok (found, rb) ∧
    (found = none ↔ s.accepted.length = s.popped.length) ∧ (found = none → rb = s.rb)

/-- The same law for the raw calls, which stop at their assertions when the buffer is full or empty. -/
structure RingLaw {α : Type} (maxlen : ℕ) (s : Book α) : Prop where
  order : s.popped <+: s.accepted
  full : ringbufferIsFull s.rb = true ↔ s.accepted.length = s.popped.length + maxlen
  empty : ringbufferIsEmpty s.rb = true ↔ s.accepted.length = s.popped.length
  push : ∀ x, (∃ rb, ringbufferPush s.rb x = .ok rb) ↔ s.accepted.length < s.popped.length + maxlen
  pop : (∃ x rb, ringbufferPop s.rb = .ok (x, rb)) ↔ s.popped.length < s.accepted.length

section Runs

/-- The queue holds the accepted messages that are not yet popped. -/
def IntrInvariant (s : Book IntrMsg) : Prop := ∃ items, s.accepted = s.popped ++ items ∧ Holding s.rb items

private theorem IntrInvariant.step {s t : Book IntrMsg} {e : Event IntrMsg} (invariant : IntrInvariant s)
    (ran : intrStep s e = .ok t) : IntrInvariant t := by
  obtain ⟨items, split, holding⟩ := invariant
  cases e with
  | push msg =>
    rcases holding.push msg with ⟨_, refused⟩ | ⟨_, rb, pushed, after⟩
    · rw [intrStep, refused] at ran
      cases ran
      exact ⟨items, split, holding⟩
    · rw [intrStep, pushed] at ran
      cases ran
      refine ⟨items ++ [msg], ?_, after⟩
      rw [if_pos rfl, split, List.append_assoc]
  | pop =>
    cases items with
    | nil =>
      rw [intrStep, holding.pop_empty] at ran
      cases ran
      exact ⟨[], by simpa using split, holding⟩
    | cons msg items =>
      obtain ⟨rb, popped, after⟩ := holding.pop
      rw [intrStep, popped] at ran
      cases ran
      refine ⟨items, ?_, after⟩
      rw [split, Option.toList_some, List.append_assoc, List.singleton_append]

private theorem IntrInvariant.law {s : Book IntrMsg} (invariant : IntrInvariant s) : IntrLaw s := by
  obtain ⟨items, split, holding⟩ := invariant
  have lengths : s.accepted.length = s.popped.length + items.length := by rw [split, List.length_append]
  refine ⟨⟨items, split.symm⟩, fun msg => ?_, ?_⟩
  · rcases holding.push msg with ⟨full, refused⟩ | ⟨room, rb, pushed, _⟩
    · exact ⟨false, s.rb, refused, iff_of_true rfl (by omega), fun _ => rfl⟩
    · exact ⟨true, rb, pushed, iff_of_false (by decide) (by omega), fun impossible => by cases impossible⟩
  · cases items with
    | nil => exact ⟨none, s.rb, holding.pop_empty, iff_of_true rfl lengths, fun _ => rfl⟩
    | cons msg items =>
      obtain ⟨rb, popped, _⟩ := holding.pop
      rw [List.length_cons] at lengths
      exact ⟨some msg, rb, popped, iff_of_false (by simp) (by omega), fun impossible => by cases impossible⟩

variable {α : Type} {maxlen : ℕ}

/-- The ring buffer holds the accepted items that are not yet popped. -/
def RingInvariant (maxlen : ℕ) (s : Book α) : Prop :=
  ∃ items, s.accepted = s.popped ++ items ∧ s.rb.Queued items ∧ s.rb.maxlen = maxlen

private theorem RingInvariant.step {s t : Book α} {e : Event α} (invariant : RingInvariant maxlen s)
    (ran : ringStep s e = .ok t) : RingInvariant maxlen t := by
  obtain ⟨items, split, queued, size⟩ := invariant
  cases e with
  | push x =>
    rcases Nat.lt_or_eq_of_le queued.holds.fits with room | full
    · obtain ⟨rb, pushed, same, after⟩ := queued.push room x
      rw [ringStep, pushed] at ran
      cases ran
      refine ⟨items ++ [x], ?_, after, same.trans size⟩
      rw [split, List.append_assoc]
    · rw [ringStep, queued.push_full full] at ran
      cases ran
  | pop =>
    cases items with
    | nil =>
      rw [ringStep, queued.pop_empty] at ran
      cases ran
    | cons x items =>
      obtain ⟨rb, popped, same, after⟩ := queued.pop
      rw [ringStep, popped] at ran
      cases ran
      refine ⟨items, ?_, after, same.trans size⟩
      rw [split, List.append_assoc, List.singleton_append]

private theorem RingInvariant.law {s : Book α} (invariant : RingInvariant maxlen s) : RingLaw maxlen s := by
  obtain ⟨items, split, queued, size⟩ := invariant
  have lengths : s.accepted.length = s.popped.length + items.length := by rw [split, List.length_append]
  have fits := queued.holds.fits
  rw [size] at fits
  refine ⟨⟨items, split.symm⟩, ?_, ?_, fun x => ?_, ?_⟩
  · rw [queued.isFull_iff, size]
    omega
  · rw [queued.isEmpty_iff, ← List.length_eq_zero_iff]
    omega
  · rcases Nat.lt_or_eq_of_le queued.holds.fits with room | full
    · obtain ⟨rb, pushed, _⟩ := queued.push room x
      exact iff_of_true ⟨rb, pushed⟩ (by omega)
    · rw [queued.push_full full]
      exact iff_of_false (by rintro ⟨rb, impossible⟩; cases impossible) (by omega)
  · cases items with
    | nil =>
      rw [queued.pop_empty]
      exact iff_of_false (by rintro ⟨x, rb, impossible⟩; cases impossible)
        (by rw [lengths]; exact Nat.lt_irrefl _)
    | cons x items =>
      obtain ⟨rb, popped, _⟩ := queued.pop
      rw [List.length_cons] at lengths
      exact iff_of_true ⟨x, rb, popped⟩ (by omega)

/-- After every interleaving of pushes and pops the interrupt queue obeys the first-in first-out law,
and so does every ring buffer of at least one cell. -/
theorem fifo_law :
    (∀ (msgBuffer : ℕ → IntrMsg) es s,
      Run (fun s e t => intrStep s e = .ok t) (.start (interruptInit msgBuffer)) es s → IntrLaw s) ∧
    ∀ (β : Type) (buffer : ℕ → β) (maxlen : ℕ), 1 ≤ maxlen → maxlen < 2 ^ 64 → ∀ es s,
      Run (fun s e t => ringStep s e = .ok t) (.start (ringbufferInit buffer maxlen)) es s → RingLaw maxlen s := by
  refine ⟨fun msgBuffer es s run => ?_, fun β buffer maxlen positive size es s run => ?_⟩
  · have initial : IntrInvariant (.start (interruptInit msgBuffer)) := ⟨[], rfl, holding_init msgBuffer⟩
    exact (run.invariant initial fun _ _ _ invariant step => invariant.step step).law
  · have initial : RingInvariant maxlen (.start (ringbufferInit buffer maxlen)) :=
      ⟨[], rfl, queued_init buffer positive size, rfl⟩
    exact (run.invariant initial fun _ _ _ invariant step => invariant.step step).law

theorem fifo_law_three : ∃ s : Book Char, s.accepted = ['a', 'b'] ∧ s.popped = ['a'] ∧ RingLaw 2 s := by
  have run : Run (fun s e t => ringStep s e = .ok t) (.start (ringbufferInit (fun _ => 'a') 2))
      ([] ++ [.push 'a'] ++ [.push 'b'] ++ [.pop]) _ := .snoc (.snoc (.snoc .nil rfl) rfl) rfl
  exact ⟨_, rfl, rfl, fifo_law.2 Char (fun _ => 'a') 2 (by decide) (by decide) _ _ run⟩

end Runs

end RubberOS.Soundness.InterruptQueue
