import Kbuf.Lib.WaitQueue
import Kbuf.Machine.World
import Kbuf.Weak.Spsc

namespace Kbuf

open Interleaving ReleaseAcquire

-- The device with its two wait queues.
structure WeakWorld where
  dev : WeakDev
  readWq : Queue SpscIndex
  writeWq : Queue SpscIndex

def WeakWorld.queue (w : WeakWorld) : Wq → Queue SpscIndex
  | .read => w.readWq
  | .write => w.writeWq

-- Where a thread is in the wait and wake-up calls around the steps of the ring. `interrupted`
-- is what prepare_to_wait_event leaves when a signal is pending.
inductive WaitPhase where
  | running
  | prepare (wq : Wq)
  | interrupted
  | wake (wq : Wq)
  deriving DecidableEq

structure WeakWaiter where
  here : WeakLocal
  phase : WaitPhase
  deriving DecidableEq

section Points

-- The condition has been found false. The thread goes to sleep if it is on the queue.
def WeakLocal.asleepOn : WeakLocal → Option Wq
  | .read _ _ .asleep => some .read
  | .write _ _ .asleep => some .write
  | _ => none

-- The condition is being evaluated.
def WeakLocal.testing : WeakLocal → Option Wq
  | .read _ _ (.testCons _) => some .read
  | .write _ _ (.testCons _) => some .write
  | _ => none

-- The last step of kbuf_spsc_consume or kbuf_spsc_produce, and the queue to be woken then
def WeakLocal.returning : WeakLocal → Option Wq
  | .read _ _ (.trace _) => some .write
  | .write _ _ (.peak _) => some .read
  | _ => none

end Points

section Queues

-- One critical section of the lock of a queue, after which `waiters` are on it.
def WeakWorld.hold (w : WeakWorld) (wq : Wq) (me : Nat) (waiters : List Nat) : WeakWorld :=
  let v := w.dev.mem.locked me (w.queue wq)
  let dev := { w.dev with mem := w.dev.mem.setView me v }
  match wq with
  | .read => { w with dev := dev, readWq := ⟨waiters, v⟩ }
  | .write => { w with dev := dev, writeWq := ⟨waiters, v⟩ }

def WeakWorld.enqueue (w : WeakWorld) (wq : Wq) (me : Nat) : WeakWorld :=
  w.hold wq me ((w.queue wq).waiters.insert me)

def WeakWorld.dequeue (w : WeakWorld) (wq : Wq) (me : Nat) : WeakWorld :=
  w.hold wq me ((w.queue wq).waiters.filter (· ≠ me))

-- wake_up_interruptible takes the lock whether or not somebody is on the queue.
def WeakWorld.wakeUp (w : WeakWorld) (wq : Wq) (me : Nat) : WeakWorld := w.hold wq me []

-- finish_wait takes the lock only if the thread is still on the queue.
def WeakWorld.finishWait (w : WeakWorld) (wq : Wq) (me : Nat) : WeakWorld :=
  if me ∈ (w.queue wq).waiters then w.dequeue wq me else w

end Queues

section Steps

-- prepare_to_wait_event
def prepareStep (me : Nat) (wq : Wq) (here : WeakLocal) (w : WeakWorld) :
    WeakSpscChoice → Option (WeakWorld × WeakWaiter)
  | .go => some (w.enqueue wq me, ⟨here, .running⟩)
  | .signal => some (w.dequeue wq me, ⟨here, .interrupted⟩)
  | _ => none

-- schedule() returns when the thread has been taken off the queue or has a signal. Then
-- the loop of wait_event_interruptible begins again.
def scheduleStep (me : Nat) (wq : Wq) (here : WeakLocal) (w : WeakWorld)
    (choice : WeakSpscChoice) : Option (WeakWorld × WeakWaiter) :=
  let again := (weakSpsc me .go here w.dev).map fun (dev, next) =>
    ({ w with dev := dev }, ⟨next, .prepare wq⟩)
  match choice with
  | .go => if me ∈ (w.queue wq).waiters then none else again
  | .signal => again
  | _ => none

-- A step of the ring. A condition that has come true ends the wait.
def ringStep (me : Nat) (phase : WaitPhase) (here : WeakLocal) (w : WeakWorld)
    (choice : WeakSpscChoice) : Option (WeakWorld × WeakWaiter) :=
  (weakSpsc me choice here w.dev).map fun (dev, next) =>
    let w' := { w with dev := dev }
    match here.testing, here.returning with
    | some wq, _ =>
        if next.asleepOn = none then (w'.finishWait wq me, ⟨next, .running⟩)
        else (w', ⟨next, phase⟩)
    | none, some wq => (w', ⟨next, .wake wq⟩)
    | none, none => (w', ⟨next, phase⟩)

-- With a signal pending a false condition makes wait_event_interruptible return.
def interruptedStep (me : Nat) (here : WeakLocal) (w : WeakWorld) (choice : WeakSpscChoice) :
    Option (WeakWorld × WeakWaiter) :=
  if here.asleepOn = none then ringStep me .interrupted here w choice
  else
    match choice with
    | .signal => ringStep me .running here w .signal
    | _ => none

-- kbuf_read and kbuf_write in SPSC mode, with the waits and wake-ups.
def weakWaits : Program WeakWorld WeakWaiter WeakSpscChoice := fun me choice thread w =>
  match thread.phase with
  | .prepare wq => prepareStep me wq thread.here w choice
  | .wake wq =>
      match choice with
      | .go => some (w.wakeUp wq me, ⟨thread.here, .running⟩)
      | _ => none
  | .interrupted => interruptedStep me thread.here w choice
  | .running =>
      match thread.here.asleepOn with
      | some wq => scheduleStep me wq thread.here w choice
      | none => ringStep me .running thread.here w choice

end Steps

abbrev WeakWaitSystem := State WeakWorld WeakWaiter

def weakWaitBoot (dev : Dev) : WeakWaitSystem where
  shared :=
    { dev := (weakSpscBoot dev).shared
      readWq := ⟨[], .nothing⟩
      writeWq := ⟨[], .nothing⟩ }
  locals := fun _ => ⟨.idle, .running⟩

end Kbuf
