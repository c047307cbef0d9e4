import Kbuf.Machine.World

namespace Kbuf

section Read

-- What kbuf_spsc_consume holds in local variables while it copies.
structure Consuming where
  cons : BitVec 32
  slot : SlotPtr
  len : Nat
  out : List UInt8
  deriving DecidableEq

def Consuming.ret (f : Consuming) : Ret := .bytes (.ok f.len) f.out

inductive SpscReadPc where
  | empty
  | emptyCons (prod : BitVec 32)
  | sleep
  | wait (pc : WaitPc)
  | consume
  | len (cons : BitVec 32) (slot : SlotPtr)
  | copy (f : Consuming)
  | publish (f : Consuming)
  | bytesLoad (f : Consuming)
  | bytesStore (f : Consuming) (bytes : BitVec 64)
  | msgsLoad (f : Consuming)
  | msgsStore (f : Consuming) (msgs : BitVec 64)
  | trace (f : Consuming)
  | wake (f : Consuming)
  deriving DecidableEq

def SpscReadPc.afterWait : WaitNext → Next SpscReadPc
  | .wait pc => .to (.wait pc)
  | .woken => .to .empty
  | .interrupted => .ret (.bytes (.error .ERESTARTSYS) [])

-- kbuf_read_spsc and kbuf_spsc_consume, one load, store or copied byte at a time.
def readSpscStep (nonblock : Bool) (u : UserRead) (me : Nat) (w : World) :
    SpscReadPc → Choice → Option (World × Next SpscReadPc)
  | .empty, .go => some (w, .to (.emptyCons w.dev.prodIdx))
  | .emptyCons prod, .go =>
      if prod = w.dev.consIdx then
        if nonblock then some (w, .ret (.bytes (.error .EAGAIN) [])) else some (w, .to .sleep)
      else some (w, .to .consume)
  | .sleep, .go =>
      some ({ w with dev := { w.dev with readSleeps := w.dev.readSleeps + 1 } },
        .to (.wait .first))
  | .wait pc, choice =>
      (waitEvent .read (fun dev => !spscIsEmpty dev) me w pc choice).map
        (Prod.map id SpscReadPc.afterWait)
  | .consume, .go => some (w, .to (.len w.dev.consIdx (w.slotAt w.dev.consIdx)))
  | .len cons slot, .go =>
      some (w, .to (.copy ⟨cons, slot, min u.count (w.load slot).len, []⟩))
  | .copy f, .go =>
      if f.out.length < f.len then
        if f.out.length < u.room then
          let byte := (w.load f.slot).data.getD f.out.length 0
          some (w, .to (.copy { f with out := f.out ++ [byte] }))
        else some (w, .ret (.bytes (.error .EFAULT) f.out))
      else some (w, .to (.publish f))
  | .publish f, .go =>
      some ({ w with
        dev := { w.dev with consIdx := f.cons + 1 }
        log := w.log ++ [.consumed me u.count f.out] }, .to (.bytesLoad f))
  | .bytesLoad f, .go => some (w, .to (.bytesStore f w.dev.bytesConsumed))
  | .bytesStore f bytes, .go =>
      some ({ w with dev := { w.dev with bytesConsumed := bytes + BitVec.ofNat 64 f.len } },
        .to (.msgsLoad f))
  | .msgsLoad f, .go => some (w, .to (.msgsStore f w.dev.msgsConsumed))
  | .msgsStore f msgs, .go =>
      some ({ w with dev := { w.dev with msgsConsumed := msgs + 1 } }, .to (.trace f))
  | .trace f, .go => some (w, .to (.wake f))
  | .wake f, .go => some (w.wakeUp .write, .ret f.ret)
  | _, _ => none

-- The occupancy kbuf_spsc_consume reports to its trace event.
def Consuming.traced (f : Consuming) (w : World) : BitVec 32 := w.dev.prodIdx - (f.cons + 1)

end Read

section Write

-- What kbuf_spsc_produce holds in local variables while it copies.
structure Producing where
  prod : BitVec 32
  slot : SlotPtr
  deriving DecidableEq

inductive SpscWritePc where
  | clamp
  | full
  | fullCons (prod : BitVec 32)
  | sleep
  | wait (pc : WaitPc)
  | produce
  | copy (f : Producing) (i : Nat)
  | setLen (f : Producing)
  | publish (f : Producing)
  | bytesLoad (f : Producing)
  | bytesStore (f : Producing) (bytes : BitVec 64)
  | msgsLoad (f : Producing)
  | msgsStore (f : Producing) (msgs : BitVec 64)
  | occ (f : Producing)
  | peak (occ : BitVec 32)
  | peakStore (occ : BitVec 32)
  | wake
  deriving DecidableEq

def SpscWritePc.afterWait (u : UserWrite) : WaitNext → Next (UserWrite × SpscWritePc)
  | .wait pc => .to (u, .wait pc)
  | .woken => .to (u, .full)
  | .interrupted => .ret (.size (.error .ERESTARTSYS))

-- One byte of copy_from_user. Bytes that cannot be fetched are padded with zeros, and a byte
-- past the end of the slot hits memory that is not part of the model.
def storeByte (w : World) (slot : SlotPtr) (ubuf : List UInt8) (i : Nat) : World :=
  let old := w.load slot
  w.store slot { old with data := old.data.set i (ubuf.getD i 0) }

-- kbuf_write_spsc and kbuf_spsc_produce, one load, store or copied byte at a time.
def writeSpscStep (nonblock : Bool) (u : UserWrite) (me : Nat) (w : World) :
    SpscWritePc → Choice → Option (World × Next (UserWrite × SpscWritePc))
  | .clamp, .go => some (w, .to (u.clamp w.dev.bufferSize, .full))
  | .full, .go => some (w, .to (u, .fullCons w.dev.prodIdx))
  | .fullCons prod, .go =>
      if w.dev.numBuffers ≤ (prod - w.dev.consIdx).toNat then
        if nonblock then some (w, .ret (.size (.error .EAGAIN))) else some (w, .to (u, .sleep))
      else some (w, .to (u, .produce))
  | .sleep, .go =>
      some ({ w with dev := { w.dev with writeSleeps := w.dev.writeSleeps + 1 } },
        .to (u, .wait .first))
  | .wait pc, choice =>
      (waitEvent .write (fun dev => !spscIsFull dev) me w pc choice).map
        (Prod.map id (SpscWritePc.afterWait u))
  | .produce, .go => some (w, .to (u, .copy ⟨w.dev.prodIdx, w.slotAt w.dev.prodIdx⟩ 0))
  | .copy f i, .go =>
      if i < u.count then some (storeByte w f.slot u.ubuf i, .to (u, .copy f (i + 1)))
      else if u.ubuf.length < u.count then some (w, .ret (.size (.error .EFAULT)))
      else some (w, .to (u, .setLen f))
  | .setLen f, .go =>
      some (w.store f.slot { w.load f.slot with len := u.count }, .to (u, .publish f))
  | .publish f, .go =>
      some ({ w with
        dev := { w.dev with prodIdx := f.prod + 1 }
        log := w.log ++ [.produced me (u.ubuf.take u.count)] }, .to (u, .bytesLoad f))
  | .bytesLoad f, .go => some (w, .to (u, .bytesStore f w.dev.bytesProduced))
  | .bytesStore f bytes, .go =>
      some ({ w with dev := { w.dev with bytesProduced := bytes + BitVec.ofNat 64 u.count } },
        .to (u, .msgsLoad f))
  | .msgsLoad f, .go => some (w, .to (u, .msgsStore f w.dev.msgsProduced))
  | .msgsStore f msgs, .go =>
      some ({ w with dev := { w.dev with msgsProduced := msgs + 1 } }, .to (u, .occ f))
  | .occ f, .go => some (w, .to (u, .peak (f.prod + 1 - w.dev.consIdx)))
  | .peak occ, .go =>
      if w.dev.peakCount < occ.toNat then some (w, .to (u, .peakStore occ))
      else some (w, .to (u, .wake))
  | .peakStore occ, .go =>
      some ({ w with dev := { w.dev with peakCount := occ.toNat } }, .to (u, .wake))
  | .wake, .go => some (w.wakeUp .read, .ret (.size (.ok u.count)))
  | _, _ => none

end Write

end Kbuf
