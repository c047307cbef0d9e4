import Kbuf.Calls
import Mathlib.Logic.Function.Basic

namespace Kbuf

-- History of the completed hand-overs, in the order they took effect. No step reads it.
inductive Event where
  | produced (pid : Nat) (message : List UInt8)
  | consumed (pid : Nat) (count : Nat) (out : List UInt8)
  deriving DecidableEq

def Event.pid : Event → Nat
  | .produced pid _ => pid
  | .consumed pid _ _ => pid

-- What the processes share: the device, the slot arrays, the lock and the wait queues.
-- The array that `dev->slots` points to is kept in `dev`, all others in `heap`.
structure World where
  dev : Dev
  slotsPtr : Nat
  heap : Nat → List Slot
  live : List Nat
  nextPtr : Nat
  lock : Option Nat
  readWq : List Nat
  writeWq : List Nat
  log : List Event

-- The messages accepted so far.
def World.sent (w : World) : List (List UInt8) :=
  w.log.filterMap fun
    | .produced _ message => some message
    | .consumed .. => none

-- The deliveries so far: the size asked for and the bytes handed over.
def World.received (w : World) : List (Nat × List UInt8) :=
  w.log.filterMap fun
    | .produced .. => none
    | .consumed _ count out => some (count, out)

-- How the environment answers a step: it goes ahead, a signal is pending, or a
-- sleeper runs without having been woken. `start` is a process entering the driver.
inductive Request where
  | read (nonblock : Bool) (u : UserRead)
  | write (nonblock : Bool) (u : UserWrite)
  | resize (rq : ResizeArg)
  | smode (arg : SmodeArg)
  | reset
  | getstats (fault : Bool)
  | poll

-- What happens next to a process: it enters a call, goes on, finds a signal pending where it
-- looks for one, or wakes up although nobody has woken it. A signal to a sleeper is the last
-- of these, and is found when the sleeper looks again.
inductive Choice where
  | start (request : Request)
  | go
  | signal
  | spurious

-- Where a step leaves its call: inside it, or returned.
inductive Next (π : Type) where
  | to (pc : π)
  | ret (ret : Ret)

section Slots

structure SlotPtr where
  array : Nat
  index : Nat
  deriving DecidableEq

def World.array (w : World) (ptr : Nat) : List Slot :=
  if ptr = w.slotsPtr then w.dev.slots else w.heap ptr

def World.setArray (w : World) (ptr : Nat) (slots : List Slot) : World :=
  { w with
    dev := { w.dev with slots := if ptr = w.slotsPtr then slots else w.dev.slots }
    heap := if ptr = w.slotsPtr then w.heap else Function.update w.heap ptr slots }

def World.load (w : World) (slot : SlotPtr) : Slot := (w.array slot.array).getD slot.index default

def World.store (w : World) (slot : SlotPtr) (value : Slot) : World :=
  w.setArray slot.array ((w.array slot.array).set slot.index value)

-- `&dev->slots[index & (num_buffers - 1)]`
def World.slotAt (w : World) (index : BitVec 32) : SlotPtr := ⟨w.slotsPtr, w.dev.masked index⟩

end Slots

section Lock

def World.acquire (w : World) (me : Nat) : Option World :=
  if w.lock = none then some { w with lock := some me } else none

def World.release (w : World) : World := { w with lock := none }

end Lock

section WaitQueues

inductive Wq where
  | read
  | write
  deriving DecidableEq

def World.waiters (w : World) : Wq → List Nat
  | .read => w.readWq
  | .write => w.writeWq

def World.setWaiters (w : World) (waiters : List Nat) : Wq → World
  | .read => { w with readWq := waiters }
  | .write => { w with writeWq := waiters }

def World.enqueue (w : World) (wq : Wq) (me : Nat) : World :=
  w.setWaiters ((w.waiters wq).insert me) wq

def World.dequeue (w : World) (wq : Wq) (me : Nat) : World :=
  w.setWaiters ((w.waiters wq).filter (· ≠ me)) wq

-- wake_up_interruptible: every waiter leaves the queue and runs again.
def World.wakeUp (w : World) (wq : Wq) : World := w.setWaiters [] wq

inductive WaitPc where
  | first
  | prepare
  | test
  | asleep
  deriving DecidableEq

inductive WaitNext where
  | wait (pc : WaitPc)
  | woken
  | interrupted

-- wait_event_interruptible: a first test, then enqueue, test, sleep until a
-- wakeup has taken the caller off the queue.
def waitEvent (wq : Wq) (cond : Dev → Bool) (me : Nat) (w : World) :
    WaitPc → Choice → Option (World × WaitNext)
  | .first, .go => some (w, if cond w.dev then .woken else .wait .prepare)
  | .prepare, .go => some (w.enqueue wq me, .wait .test)
  | .prepare, .signal => some (w.dequeue wq me, if cond w.dev then .woken else .interrupted)
  | .test, .go =>
      if cond w.dev then some (w.dequeue wq me, .woken) else some (w, .wait .asleep)
  | .asleep, .go => if me ∈ w.waiters wq then none else some (w, .wait .prepare)
  | .asleep, .spurious => some (w, .wait .prepare)
  | _, _ => none

end WaitQueues

-- Whether a call returned a value that is not an error code.
def Ret.ok : Ret → Bool
  | .bytes (.ok _) _ => true
  | .size (.ok _) => true
  | .status (.ok _) => true
  | .stats (.ok _) => true
  | .mask _ => true
  | _ => false

end Kbuf
