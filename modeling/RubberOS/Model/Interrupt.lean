import RubberOS.Model.Ringbuffer

/-! # The queue between interrupt handlers and the main loop -/

namespace RubberOS.Model.Interrupt

open Collections

def INTR_QUEUE_SIZE : ℕ := 4096

inductive IntrMsgType where
  | keyboard
  | mouse
deriving DecidableEq, Repr

/-- `struct intr_msg`. -/
structure IntrMsg where
  type : IntrMsgType
  data : BitVec 8
deriving DecidableEq, Repr

/-- `g_intr_queue` after `interrupt_init`, over whatever `g_msg_buffer` holds. -/
def interruptInit (msgBuffer : ℕ → IntrMsg) : Ringbuffer IntrMsg := ringbufferInit msgBuffer INTR_QUEUE_SIZE

def intrQueuePush (queue : Ringbuffer IntrMsg) (msg : IntrMsg) : Result (Bool × Ringbuffer IntrMsg) :=
  if ringbufferIsFull queue then return (false, queue)
  else do
    let queue ← ringbufferPush queue msg
    return (true, queue)

/-- `intr_queue_try_pop`: the message that it stores, or nothing when it returns false. -/
def intrQueueTryPop (queue : Ringbuffer IntrMsg) : Result (Option IntrMsg × Ringbuffer IntrMsg) :=
  if ringbufferIsEmpty queue then return (none, queue)
  else do
    let (msg, queue) ← ringbufferPop queue
    return (some msg, queue)

end RubberOS.Model.Interrupt
