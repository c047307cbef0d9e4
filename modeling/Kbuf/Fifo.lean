import Kbuf.Calls

namespace Kbuf

-- What the device is for: a bounded FIFO of messages of bounded length.
@[ext] structure Fifo where
  messages : List (List UInt8)
  capacity : Nat
  slotSize : Nat
  length_le : messages.length ≤ capacity
  small : ∀ message ∈ messages, message.length ≤ slotSize

namespace Fifo

-- The dimensions change only together, and only through a resize.
def SameShape (q next : Fifo) : Prop :=
  next.capacity = q.capacity ∧ next.slotSize = q.slotSize

def ReadStep (q : Fifo) (u : UserRead) (ret : Ret) (next : Fifo) : Prop :=
  match q.messages with
  | [] => ret = .bytes (.error .EAGAIN) [] ∧ next = q
  | message :: rest =>
      if min u.count message.length ≤ u.room then
        ret = .bytes (.ok (min u.count message.length)) (message.take u.count) ∧
          next.messages = rest ∧ q.SameShape next
      else ret = .bytes (.error .EFAULT) (message.take u.room) ∧ next = q

def WriteStep (q : Fifo) (u : UserWrite) (ret : Ret) (next : Fifo) : Prop :=
  if q.messages.length < q.capacity then
    if min u.count q.slotSize ≤ u.ubuf.length then
      ret = .size (.ok (min u.count q.slotSize)) ∧
        next.messages = q.messages ++ [u.ubuf.take (min u.count q.slotSize)] ∧ q.SameShape next
    else ret = .size (.error .EFAULT) ∧ next = q
  else ret = .size (.error .EAGAIN) ∧ next = q

-- The effect and the answer that a call may have on the FIFO.
def Step (q : Fifo) (call : Call) (ret : Ret) (next : Fifo) : Prop :=
  match call with
  | .read u => q.ReadStep u ret next
  | .write u => q.WriteStep u ret next
  | .resize rq =>
      (ret = .status (.ok ()) ∧ q.messages = [] ∧ next.messages = [] ∧
        next.capacity = rq.numBuffers ∧ next.slotSize = rq.bufferSize) ∨
      (∃ e, ret = .status (.error e)) ∧ next = q
  | .smode _ =>
      (ret = .status (.ok ()) ∧ q.messages = [] ∧ next = q) ∨
      (∃ e, ret = .status (.error e)) ∧ next = q
  | .reset => ret = .status (.ok ()) ∧ next = q
  | .getstats fault =>
      next = q ∧
        if fault then ret = .stats (.error .EFAULT)
        else ∃ stats, ret = .stats (.ok stats) ∧ stats.curCount = q.messages.length ∧
          stats.numBuffers = q.capacity ∧ stats.bufferSize = q.slotSize
  | .poll => next = q ∧ ret = .mask (pollMask q.messages.isEmpty (q.messages.length = q.capacity))

inductive Runs : Fifo → List (Call × Ret) → Fifo → Prop
  | nil (q : Fifo) : Runs q [] q
  | cons {q middle last : Fifo} {call : Call} {ret : Ret} {rest : List (Call × Ret)} :
      q.Step call ret middle → Runs middle rest last → Runs q ((call, ret) :: rest) last

-- The FIFO of the device as it is set up.
def fresh : Fifo where
  messages := []
  capacity := KBUF_DEFAULT_NUM_BUFFERS
  slotSize := KBUF_DEFAULT_BUFFER_SIZE
  length_le := Nat.zero_le _
  small := by simp

end Fifo

end Kbuf
