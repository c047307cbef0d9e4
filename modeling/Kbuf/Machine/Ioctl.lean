import Kbuf.Machine.World

namespace Kbuf

section Resize

inductive ResizePc where
  | check
  | alloc
  | lock (ptr : Nat)
  | swap (ptr : Nat)
  | unlockBusy (ptr : Nat)
  | freeNew (ptr : Nat)
  | unlock (old : Nat)
  | freeOld (old : Nat)
  | wake
  deriving DecidableEq

-- kbuf_alloc_slots: the new array gets a pointer of its own.
def World.alloc (w : World) (slots : List Slot) : World :=
  { w with
    heap := Function.update w.heap w.nextPtr slots
    live := w.nextPtr :: w.live
    nextPtr := w.nextPtr + 1 }

-- The device with `dev->slots` pointing to another array.
def World.install (w : World) (dev : Dev) (ptr : Nat) : World :=
  { w with
    dev := dev
    slotsPtr := ptr
    heap := Function.update w.heap w.slotsPtr w.dev.slots }

-- kbuf_free_slots
def World.free (w : World) (ptr : Nat) : World := { w with live := w.live.erase ptr }

-- kbuf_ioc_resize
def resizeStep (rq : ResizeArg) (me : Nat) (w : World) :
    ResizePc → Choice → Option (World × Next ResizePc)
  | .check, .go =>
      match resizeCheck w.dev rq with
      | .error e => some (w, .ret (.status (.error e)))
      | .ok () => some (w, .to .alloc)
  | .alloc, .go =>
      match allocSlots rq.kmalloc rq.numBuffers rq.bufferSize with
      | none => some (w, .ret (.status (.error .ENOMEM)))
      | some slots => some (w.alloc slots, .to (.lock w.nextPtr))
  | .lock ptr, .go => (w.acquire me).map (·, .to (.swap ptr))
  | .swap ptr, .go =>
      match resizeSwap w.dev rq (w.array ptr) with
      | .error _ => some (w, .to (.unlockBusy ptr))
      | .ok dev => some (w.install dev ptr, .to (.unlock w.slotsPtr))
  | .unlockBusy ptr, .go => some (w.release, .to (.freeNew ptr))
  | .freeNew ptr, .go => some (w.free ptr, .ret (.status (.error .EBUSY)))
  | .unlock old, .go => some (w.release, .to (.freeOld old))
  | .freeOld old, .go => some (w.free old, .to .wake)
  | .wake, .go => some (w.wakeUp .write, .ret (.status (.ok ())))
  | _, _ => none

end Resize

section Smode

inductive SmodePc where
  | check
  | lock (mode : Mode)
  | switch (mode : Mode)
  | unlock (val : Except Errno Unit)
  deriving DecidableEq

-- kbuf_ioc_smode
def smodeStep (arg : SmodeArg) (me : Nat) (w : World) :
    SmodePc → Choice → Option (World × Next SmodePc)
  | .check, .go =>
      match smodeCheck arg with
      | .error e => some (w, .ret (.status (.error e)))
      | .ok mode => some (w, .to (.lock mode))
  | .lock mode, .go => (w.acquire me).map (·, .to (.switch mode))
  | .switch mode, .go =>
      match smodeSwitch w.dev mode with
      | .error e => some (w, .to (.unlock (.error e)))
      | .ok dev => some ({ w with dev := dev }, .to (.unlock (.ok ())))
  | .unlock val, .go => some (w.release, .ret (.status val))
  | _, _ => none

end Smode

section Reset

inductive ResetPc where
  | lock
  | store (field : Nat)
  | unlock
  deriving DecidableEq

-- The stores of kbuf_ioc_reset in source order.
def resetStore (dev : Dev) : Nat → Dev
  | 0 => { dev with bytesProduced := 0 }
  | 1 => { dev with bytesConsumed := 0 }
  | 2 => { dev with msgsProduced := 0 }
  | 3 => { dev with msgsConsumed := 0 }
  | 4 => { dev with readSleeps := 0 }
  | 5 => { dev with writeSleeps := 0 }
  | _ => { dev with peakCount := toUnsigned dev.count }

-- kbuf_ioc_reset, one store at a time
def resetStep (me : Nat) (w : World) : ResetPc → Choice → Option (World × Next ResetPc)
  | .lock, .go => (w.acquire me).map (·, .to (.store 0))
  | .store field, .go =>
      some ({ w with dev := resetStore w.dev field },
        .to (if field < 6 then .store (field + 1) else .unlock))
  | .unlock, .go => some (w.release, .ret (.status (.ok ())))
  | _, _ => none

end Reset

section Getstats

inductive GetstatsPc where
  | lock
  | load
  | occ (stats : Stats) (prod : BitVec 32)
  | unlock (stats : Stats)
  deriving DecidableEq

-- kbuf_ioc_getstats. In SPSC mode kbuf_occupancy loads the two indices one after the other.
def getstatsStep (fault : Bool) (me : Nat) (w : World) :
    GetstatsPc → Choice → Option (World × Next GetstatsPc)
  | .lock, .go => (w.acquire me).map (·, .to .load)
  | .load, .go =>
      match w.dev.mode with
      | .SPSC => some (w, .to (.occ (iocGetstats w.dev) w.dev.prodIdx))
      | .BLOCKING => some (w, .to (.unlock (iocGetstats w.dev)))
  | .occ stats prod, .go =>
      some (w, .to (.unlock { stats with
        curCount := (prod - w.dev.consIdx).toNat
        peakCount := w.dev.peakCount }))
  | .unlock stats, .go =>
      some (w.release, .ret (.stats (if fault then .error .EFAULT else .ok stats)))
  | _, _ => none

end Getstats

section Poll

inductive PollPc where
  | sample
  | spscFull (isEmpty : Bool)
  | lock
  | test
  | unlock (mask : BitVec 32)
  deriving DecidableEq

-- kbuf_poll
def pollStep (me : Nat) (w : World) : PollPc → Choice → Option (World × Next PollPc)
  | .sample, .go =>
      match w.dev.mode with
      | .SPSC => some (w, .to (.spscFull (spscIsEmpty w.dev)))
      | .BLOCKING => some (w, .to .lock)
  | .spscFull isEmpty, .go => some (w, .ret (.mask (pollMask isEmpty (spscIsFull w.dev))))
  | .lock, .go => (w.acquire me).map (·, .to .test)
  | .test, .go => some (w, .to (.unlock (pollMask (ringIsEmpty w.dev) (ringIsFull w.dev))))
  | .unlock mask, .go => some (w.release, .ret (.mask mask))
  | _, _ => none

end Poll

end Kbuf
