import RubberOS.Model.Interrupt
import RubberOS.ToMathlib.CyclicQueue

/-! # The ring buffer is a queue

`head`, `tail` and `count` wrap independently. They describe a queue of items when `count` is its
length and `tail` the cell after its last item, which every operation keeps.
-/

namespace RubberOS.Model.Collections

open CyclicQueue

variable {α : Type} {rb : Ringbuffer α} {items : List α} {x : α}

/-- A ring buffer that holds the items in order. -/
structure Ringbuffer.Queued (rb : Ringbuffer α) (items : List α) : Prop where
  holds : Holds rb.maxlen rb.buffer rb.head items
  tail : rb.tail = (rb.head + items.length) % rb.maxlen
  count : rb.count = items.length
  size : rb.maxlen < 2 ^ 64

theorem queued_init (buffer : ℕ → α) {maxlen : ℕ} (positive : 0 < maxlen) (size : maxlen < 2 ^ 64) :
    (ringbufferInit buffer maxlen).Queued [] :=
  ⟨(holds_nil positive : Holds maxlen buffer 0 []), (Nat.zero_mod maxlen).symm, rfl, size⟩

theorem Ringbuffer.Queued.isFull_iff (queued : rb.Queued items) :
    ringbufferIsFull rb = true ↔ items.length = rb.maxlen := by
  rw [ringbufferIsFull, decide_eq_true_iff, queued.count]

theorem Ringbuffer.Queued.isEmpty_iff (queued : rb.Queued items) :
    ringbufferIsEmpty rb = true ↔ items = [] := by
  rw [ringbufferIsEmpty, decide_eq_true_iff, queued.count, List.length_eq_zero_iff]

theorem Ringbuffer.Queued.push (queued : rb.Queued items) (room : items.length < rb.maxlen) (x : α) :
    ∃ rb', ringbufferPush rb x = .ok rb' ∧ rb'.maxlen = rb.maxlen ∧ rb'.Queued (items ++ [x]) := by
  obtain ⟨holds, tail, count, size⟩ := queued
  have positive : 0 < rb.maxlen := Nat.zero_lt_of_lt holds.inside
  have place : rb.tail < rb.maxlen := tail ▸ Nat.mod_lt _ positive
  have next : (if u64 (rb.tail + 1) = rb.maxlen then 0 else u64 (rb.tail + 1)) =
      (rb.tail + 1) % rb.maxlen := by
    rw [u64_of_lt (by omega), next_place place]
  refine ⟨{ rb with buffer := Function.update rb.buffer rb.tail x, tail := (rb.tail + 1) % rb.maxlen,
                    count := u64 (rb.count + 1) }, ?_, rfl, ?_, ?_, ?_, size⟩
  · rw [ringbufferPush, ringbufferPushIndex,
      assertMsg_of (by rw [count]; exact decide_eq_true room), Except.ok_bind]
    dsimp only
    rw [next]
    rfl
  · have pushed := holds.push room x
    rw [← tail] at pushed
    exact pushed
  · dsimp only
    rw [tail, Nat.mod_add_mod, List.length_append, List.length_singleton, Nat.add_assoc]
  · dsimp only
    rw [u64_of_lt (by omega), count, List.length_append, List.length_singleton]

theorem Ringbuffer.Queued.pop (queued : rb.Queued (x :: items)) :
    ∃ rb', ringbufferPop rb = .ok (x, rb') ∧ rb'.maxlen = rb.maxlen ∧ rb'.Queued items := by
  obtain ⟨holds, tail, count, size⟩ := queued
  have place := holds.inside
  have fits := holds.fits
  obtain ⟨first, popped⟩ := holds.pop
  rw [List.length_cons] at count tail fits
  have next : (if u64 (rb.head + 1) = rb.maxlen then 0 else u64 (rb.head + 1)) =
      (rb.head + 1) % rb.maxlen := by
    rw [u64_of_lt (by omega), next_place place]
  refine ⟨{ rb with head := (rb.head + 1) % rb.maxlen, count := sub64 rb.count 1 }, ?_, rfl, ?_, ?_, ?_, size⟩
  · rw [ringbufferPop, ringbufferPopIndex, assertMsg_of (decide_eq_true (by omega)), Except.ok_bind]
    dsimp only
    rw [next, ← first]
    rfl
  · exact popped
  · dsimp only
    rw [tail, Nat.mod_add_mod, Nat.add_right_comm, Nat.add_assoc]
  · dsimp only
    rw [sub64_of_le (by omega) (by omega), count, Nat.add_sub_cancel]

/-- A push on a full ring buffer stops at its assertion. -/
theorem Ringbuffer.Queued.push_full (queued : rb.Queued items) (full : items.length = rb.maxlen) (x : α) :
    ringbufferPush rb x = .error (.panic "ringbuffer is full : rb->count < rb->maxlen") := by
  rw [ringbufferPush, ringbufferPushIndex, queued.count, assertMsg, decide_eq_false (by omega)]
  rfl

/-- A pop on an empty ring buffer stops at its assertion. -/
theorem Ringbuffer.Queued.pop_empty (queued : rb.Queued []) :
    ringbufferPop rb = .error (.panic "ringbuffer is empty : rb->count > 0") := by
  rw [ringbufferPop, ringbufferPopIndex, queued.count, assertMsg]
  rfl

end RubberOS.Model.Collections

namespace RubberOS.Model.Interrupt

open Collections

variable {queue : Ringbuffer IntrMsg} {items : List IntrMsg}

/-- The interrupt queue holds the messages in order. -/
def Holding (queue : Ringbuffer IntrMsg) (items : List IntrMsg) : Prop :=
  queue.Queued items ∧ queue.maxlen = INTR_QUEUE_SIZE

theorem holding_init (msgBuffer : ℕ → IntrMsg) : Holding (interruptInit msgBuffer) [] :=
  ⟨queued_init msgBuffer (by decide) (by decide), rfl⟩

private theorem Holding.length_le (holding : Holding queue items) : items.length ≤ INTR_QUEUE_SIZE :=
  holding.2 ▸ holding.1.holds.fits

/-- A push appends its message, or is refused by a full queue that it leaves alone. -/
theorem Holding.push (holding : Holding queue items) (msg : IntrMsg) :
    (items.length = INTR_QUEUE_SIZE ∧ intrQueuePush queue msg = .ok (false, queue)) ∨
    (items.length < INTR_QUEUE_SIZE ∧
      ∃ queue', intrQueuePush queue msg = .ok (true, queue') ∧ Holding queue' (items ++ [msg])) := by
  have full := holding.1.isFull_iff
  rw [holding.2] at full
  rcases Nat.lt_or_eq_of_le holding.length_le with room | same
  · obtain ⟨queue', ran, kept, queued⟩ := holding.1.push (holding.2 ▸ room) msg
    refine .inr ⟨room, queue', ?_, queued, kept.trans holding.2⟩
    rw [intrQueuePush, if_neg (fun isFull => by have := full.mp isFull; omega), ran]
    rfl
  · refine .inl ⟨same, ?_⟩
    rw [intrQueuePush, if_pos (full.mpr same)]
    rfl

/-- A pop takes the first message. -/
theorem Holding.pop {msg : IntrMsg} (holding : Holding queue (msg :: items)) :
    ∃ queue', intrQueueTryPop queue = .ok (some msg, queue') ∧ Holding queue' items := by
  obtain ⟨queue', ran, kept, queued⟩ := holding.1.pop
  refine ⟨queue', ?_, queued, kept.trans holding.2⟩
  rw [intrQueueTryPop, if_neg (fun isEmpty => by cases holding.1.isEmpty_iff.mp isEmpty), ran]
  rfl

/-- A pop of an empty queue leaves it alone. -/
theorem Holding.pop_empty (holding : Holding queue []) : intrQueueTryPop queue = .ok (none, queue) := by
  rw [intrQueueTryPop, if_pos (holding.1.isEmpty_iff.mpr rfl)]
  rfl

end RubberOS.Model.Interrupt
