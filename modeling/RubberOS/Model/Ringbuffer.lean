import RubberOS.Model.Machine

/-! # The ring buffer of libcoll

The buffer is a row of cells of the element type: cell `i` lies at byte `i * sizeof(type)`, so the
macros that push and pop a value touch one cell.
-/

namespace RubberOS.Model.Collections

/-- `struct ringbuffer` with the cells its buffer points to. -/
structure Ringbuffer (α : Type) where
  buffer : ℕ → α
  head : ℕ
  tail : ℕ
  count : ℕ
  maxlen : ℕ

variable {α : Type}

def ringbufferInit (buffer : ℕ → α) (maxlen : ℕ) : Ringbuffer α :=
  { buffer, head := 0, tail := 0, count := 0, maxlen }

def ringbufferIsFull (rb : Ringbuffer α) : Bool := rb.count = rb.maxlen

def ringbufferIsEmpty (rb : Ringbuffer α) : Bool := rb.count = 0

def ringbufferPushIndex (rb : Ringbuffer α) : Result (ℕ × Ringbuffer α) := do
  assertMsg (rb.count < rb.maxlen) "ringbuffer is full" "rb->count < rb->maxlen"
  let last := rb.tail
  let tail := u64 (rb.tail + 1)
  let tail := if tail = rb.maxlen then 0 else tail
  return (last, { rb with tail, count := u64 (rb.count + 1) })

def ringbufferPopIndex (rb : Ringbuffer α) : Result (ℕ × Ringbuffer α) := do
  assertMsg (rb.count > 0) "ringbuffer is empty" "rb->count > 0"
  let first := rb.head
  let head := u64 (rb.head + 1)
  let head := if head = rb.maxlen then 0 else head
  return (first, { rb with head, count := sub64 rb.count 1 })

def ringbufferPush (rb : Ringbuffer α) (val : α) : Result (Ringbuffer α) := do
  let (index, rb) ← ringbufferPushIndex rb
  return { rb with buffer := Function.update rb.buffer index val }

def ringbufferPop (rb : Ringbuffer α) : Result (α × Ringbuffer α) := do
  let (index, rb) ← ringbufferPopIndex rb
  return (rb.buffer index, rb)

end RubberOS.Model.Collections
