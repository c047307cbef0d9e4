import Kbuf.Machine.World

namespace Kbuf

section Read

inductive ReadPc where
  | lock
  | loop
  | unlockSleep
  | wait (pc : WaitPc)
  | consume
  | unlock (ret : Ret)
  | wake (ret : Ret)

def ReadPc.afterWait : WaitNext → Next ReadPc
  | .wait pc => .to (.wait pc)
  | .woken => .to .lock
  | .interrupted => .ret (.bytes (.error .ERESTARTSYS) [])

-- kbuf_ring_consume by `me`, with its hand-over recorded.
def consumeStep (w : World) (me : Nat) (u : UserRead) : World × Ret :=
  match ringConsume w.dev u with
  | (dev, .ok len, out) =>
      ({ w with dev := dev, log := w.log ++ [.consumed me u.count out] }, .bytes (.ok len) out)
  | (dev, .error e, out) => ({ w with dev := dev }, .bytes (.error e) out)

-- kbuf_read_blocking
def readBlockingStep (nonblock : Bool) (u : UserRead) (me : Nat) (w : World) :
    ReadPc → Choice → Option (World × Next ReadPc)
  | .lock, .go => (w.acquire me).map (·, .to .loop)
  | .lock, .signal => some (w, .ret (.bytes (.error .ERESTARTSYS) []))
  | .loop, .go =>
      if ringIsEmpty w.dev then
        if nonblock then some (w, .to (.unlock (.bytes (.error .EAGAIN) [])))
        else some ({ w with dev := { w.dev with readSleeps := w.dev.readSleeps + 1 } },
          .to .unlockSleep)
      else some (w, .to .consume)
  | .unlockSleep, .go => some (w.release, .to (.wait .first))
  | .wait pc, choice =>
      (waitEvent .read (fun dev => !ringIsEmpty dev) me w pc choice).map
        (Prod.map id ReadPc.afterWait)
  | .consume, .go =>
      let (w, ret) := consumeStep w me u
      some (w, .to (.unlock ret))
  | .unlock ret, .go => some (w.release, if ret.ok then .to (.wake ret) else .ret ret)
  | .wake ret, .go => some (w.wakeUp .write, .ret ret)
  | _, _ => none

end Read

section Write

inductive WritePc where
  | lock
  | clamp
  | loop
  | unlockSleep
  | wait (pc : WaitPc)
  | relock
  | produce
  | unlock (ret : Ret)
  | wake (ret : Ret)

def WritePc.afterWait (u : UserWrite) : WaitNext → Next (UserWrite × WritePc)
  | .wait pc => .to (u, .wait pc)
  | .woken => .to (u, .relock)
  | .interrupted => .ret (.size (.error .ERESTARTSYS))

-- kbuf_ring_produce by `me`, with its hand-over recorded.
def produceStep (w : World) (me : Nat) (u : UserWrite) : World × Ret :=
  match ringProduce w.dev u with
  | (dev, .ok len) =>
      ({ w with dev := dev, log := w.log ++ [.produced me (u.ubuf.take u.count)] },
        .size (.ok len))
  | (dev, .error e) => ({ w with dev := dev }, .size (.error e))

-- kbuf_write_blocking. The count is clamped once, before the loop that may sleep.
def writeBlockingStep (nonblock : Bool) (u : UserWrite) (me : Nat) (w : World) :
    WritePc → Choice → Option (World × Next (UserWrite × WritePc))
  | .lock, .go => (w.acquire me).map (·, .to (u, .clamp))
  | .lock, .signal => some (w, .ret (.size (.error .ERESTARTSYS)))
  | .clamp, .go => some (w, .to (u.clamp w.dev.bufferSize, .loop))
  | .loop, .go =>
      if ringIsFull w.dev then
        if nonblock then some (w, .to (u, .unlock (.size (.error .EAGAIN))))
        else some ({ w with dev := { w.dev with writeSleeps := w.dev.writeSleeps + 1 } },
          .to (u, .unlockSleep))
      else some (w, .to (u, .produce))
  | .unlockSleep, .go => some (w.release, .to (u, .wait .first))
  | .wait pc, choice =>
      (waitEvent .write (fun dev => !ringIsFull dev) me w pc choice).map
        (Prod.map id (WritePc.afterWait u))
  | .relock, .go => (w.acquire me).map (·, .to (u, .loop))
  | .relock, .signal => some (w, .ret (.size (.error .ERESTARTSYS)))
  | .produce, .go =>
      let (w, ret) := produceStep w me u
      some (w, .to (u, .unlock ret))
  | .unlock ret, .go => some (w.release, if ret.ok then .to (u, .wake ret) else .ret ret)
  | .wake ret, .go => some (w.wakeUp .read, .ret ret)
  | _, _ => none

end Write

end Kbuf
