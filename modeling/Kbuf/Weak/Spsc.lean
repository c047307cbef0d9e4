import Kbuf.Calls
import Kbuf.Lib.Interleaving
import Kbuf.Lib.ReleaseAcquire

namespace Kbuf

open Interleaving ReleaseAcquire

-- The two indices of struct kbuf_dev that the lock-free path shares.
inductive SpscIndex where
  | prod
  | cons
  deriving DecidableEq, Repr

-- The device in SPSC mode as a producer and a consumer on different processors share it.
-- Each counter has one writer, and `peak_count` is the producer's. `sent`, `received` and
-- `traced` record what went through and what the trace events reported.
structure WeakDev where
  numBuffers : Nat
  bufferSize : Nat
  mem : Memory SpscIndex Nat (BitVec 32) Slot
  peakCount : Nat
  bytesProduced : BitVec 64
  bytesConsumed : BitVec 64
  msgsProduced : BitVec 64
  msgsConsumed : BitVec 64
  readSleeps : BitVec 64
  writeSleeps : BitVec 64
  sent : List (List UInt8)
  received : List (Nat × List UInt8)
  traced : List (BitVec 32)

def WeakDev.masked (dev : WeakDev) (index : BitVec 32) : Nat :=
  (index &&& (BitVec.ofNat 32 dev.numBuffers - 1)).toNat

-- What kbuf_spsc_consume holds in local variables while it copies.
structure WeakConsuming where
  cons : BitVec 32
  len : Nat
  out : List UInt8
  deriving DecidableEq

-- `test` and `testCons` evaluate the condition of wait_event_interruptible.
inductive WeakReadPc where
  | empty
  | emptyCons (prod : BitVec 32)
  | sleep
  | test
  | testCons (prod : BitVec 32)
  | asleep
  | consume
  | len (cons : BitVec 32)
  | copy (f : WeakConsuming)
  | publish (f : WeakConsuming)
  | bytes (f : WeakConsuming)
  | msgs (f : WeakConsuming)
  | trace (f : WeakConsuming)
  deriving DecidableEq

inductive WeakWritePc where
  | clamp
  | full
  | fullCons (prod : BitVec 32)
  | sleep
  | test
  | testCons (prod : BitVec 32)
  | asleep
  | produce
  | copy (prod : BitVec 32) (i : Nat)
  | setLen (prod : BitVec 32)
  | publish (prod : BitVec 32)
  | bytes (prod : BitVec 32)
  | msgs (prod : BitVec 32)
  | occ (prod : BitVec 32)
  | peak (occ : BitVec 32)
  deriving DecidableEq

inductive WeakLocal where
  | idle
  | read (nonblock : Bool) (u : UserRead) (pc : WeakReadPc)
  | write (nonblock : Bool) (u : UserWrite) (pc : WeakWritePc)
  | done (ret : Ret)
  deriving DecidableEq

-- `load i` answers a load with store number `i` to its index. A sleeper tests its
-- condition again whenever it goes on, woken or not.
inductive WeakSpscChoice where
  | read (nonblock : Bool) (u : UserRead)
  | write (nonblock : Bool) (u : UserWrite)
  | load (i : Nat)
  | go
  | signal

def WeakDev.loads (dev : WeakDev) (order : LoadOrder) (me : Nat) (l : SpscIndex) (i : Nat)
    (next : BitVec 32 → WeakLocal) : Option (WeakDev × WeakLocal) :=
  (dev.mem.load order me l i).map fun (value, mem) => ({ dev with mem := mem }, next value)

-- kbuf_read_spsc and kbuf_spsc_consume, one load, store or copied byte at a time.
def weakReadSpscStep (me : Nat) (nonblock : Bool) (u : UserRead) (dev : WeakDev) :
    WeakReadPc → WeakSpscChoice → Option (WeakDev × WeakLocal)
  | .empty, .load i => dev.loads .acquire me .prod i fun prod => .read nonblock u (.emptyCons prod)
  | .emptyCons prod, .load i =>
      dev.loads .relaxed me .cons i fun cons =>
        if prod = cons then
          if nonblock then .done (.bytes (.error .EAGAIN) []) else .read nonblock u .sleep
        else .read nonblock u .consume
  | .sleep, .go => some ({ dev with readSleeps := dev.readSleeps + 1 }, .read nonblock u .test)
  | .test, .load i => dev.loads .acquire me .prod i fun prod => .read nonblock u (.testCons prod)
  | .testCons prod, .load i =>
      dev.loads .relaxed me .cons i fun cons =>
        .read nonblock u (if prod = cons then .asleep else .empty)
  | .asleep, .go => some (dev, .read nonblock u .test)
  | .asleep, .signal => some (dev, .done (.bytes (.error .ERESTARTSYS) []))
  | .consume, .load i => dev.loads .relaxed me .cons i fun cons => .read nonblock u (.len cons)
  | .len cons, .go =>
      let (slot, mem) := dev.mem.readCell me (dev.masked cons)
      some ({ dev with mem := mem }, .read nonblock u (.copy ⟨cons, min u.count slot.len, []⟩))
  | .copy f, .go =>
      if f.out.length < f.len then
        if f.out.length < u.room then
          let (slot, mem) := dev.mem.readCell me (dev.masked f.cons)
          let byte := slot.data.getD f.out.length 0
          some ({ dev with mem := mem },
            .read nonblock u (.copy { f with out := f.out ++ [byte] }))
        else some (dev, .done (.bytes (.error .EFAULT) f.out))
      else some (dev, .read nonblock u (.publish f))
  | .publish f, .go =>
      some ({ dev with
          mem := dev.mem.store .release me .cons (f.cons + 1)
          received := dev.received ++ [(u.count, f.out)] }, .read nonblock u (.bytes f))
  | .bytes f, .go =>
      some ({ dev with bytesConsumed := dev.bytesConsumed + BitVec.ofNat 64 f.len },
        .read nonblock u (.msgs f))
  | .msgs f, .go =>
      some ({ dev with msgsConsumed := dev.msgsConsumed + 1 }, .read nonblock u (.trace f))
  | .trace f, .load i =>
      (dev.mem.load .relaxed me .prod i).map fun (prod, mem) =>
        ({ dev with mem := mem, traced := dev.traced ++ [prod - (f.cons + 1)] },
          .done (.bytes (.ok f.len) f.out))
  | _, _ => none

-- kbuf_write_spsc and kbuf_spsc_produce, one load, store or copied byte at a time.
def weakWriteSpscStep (me : Nat) (nonblock : Bool) (u : UserWrite) (dev : WeakDev) :
    WeakWritePc → WeakSpscChoice → Option (WeakDev × WeakLocal)
  | .clamp, .go => some (dev, .write nonblock (u.clamp dev.bufferSize) .full)
  | .full, .load i => dev.loads .relaxed me .prod i fun prod => .write nonblock u (.fullCons prod)
  | .fullCons prod, .load i =>
      dev.loads .acquire me .cons i fun cons =>
        if dev.numBuffers ≤ (prod - cons).toNat then
          if nonblock then .done (.size (.error .EAGAIN)) else .write nonblock u .sleep
        else .write nonblock u .produce
  | .sleep, .go => some ({ dev with writeSleeps := dev.writeSleeps + 1 }, .write nonblock u .test)
  | .test, .load i => dev.loads .relaxed me .prod i fun prod => .write nonblock u (.testCons prod)
  | .testCons prod, .load i =>
      dev.loads .acquire me .cons i fun cons =>
        .write nonblock u (if dev.numBuffers ≤ (prod - cons).toNat then .asleep else .full)
  | .asleep, .go => some (dev, .write nonblock u .test)
  | .asleep, .signal => some (dev, .done (.size (.error .ERESTARTSYS)))
  | .produce, .load i => dev.loads .relaxed me .prod i fun prod => .write nonblock u (.copy prod 0)
  | .copy prod i, .go =>
      if i < u.count then
        let old := dev.mem.cell (dev.masked prod)
        let slot := { old with data := old.data.set i (u.ubuf.getD i 0) }
        some ({ dev with mem := dev.mem.writeCell me (dev.masked prod) slot },
          .write nonblock u (.copy prod (i + 1)))
      else if u.ubuf.length < u.count then some (dev, .done (.size (.error .EFAULT)))
      else some (dev, .write nonblock u (.setLen prod))
  | .setLen prod, .go =>
      let slot := { dev.mem.cell (dev.masked prod) with len := u.count }
      some ({ dev with mem := dev.mem.writeCell me (dev.masked prod) slot },
        .write nonblock u (.publish prod))
  | .publish prod, .go =>
      some ({ dev with
          mem := dev.mem.store .release me .prod (prod + 1)
          sent := dev.sent ++ [u.ubuf.take u.count] }, .write nonblock u (.bytes prod))
  | .bytes prod, .go =>
      some ({ dev with bytesProduced := dev.bytesProduced + BitVec.ofNat 64 u.count },
        .write nonblock u (.msgs prod))
  | .msgs prod, .go =>
      some ({ dev with msgsProduced := dev.msgsProduced + 1 }, .write nonblock u (.occ prod))
  | .occ prod, .load i =>
      dev.loads .relaxed me .cons i fun cons => .write nonblock u (.peak (prod + 1 - cons))
  | .peak occ, .go =>
      some ({ dev with
          peakCount := if dev.peakCount < occ.toNat then occ.toNat else dev.peakCount
          traced := dev.traced ++ [occ] }, .done (.size (.ok u.count)))
  | _, _ => none

def weakSpscEnter (dev : WeakDev) : WeakSpscChoice → Option (WeakDev × WeakLocal)
  | .read nonblock u => some (dev, .read nonblock u .empty)
  | .write nonblock u => some (dev, .write nonblock u .clamp)
  | _ => none

-- kbuf_read and kbuf_write in SPSC mode.
def weakSpsc : Program WeakDev WeakLocal WeakSpscChoice := fun me choice here dev =>
  match here with
  | .read nonblock u pc => weakReadSpscStep me nonblock u dev pc choice
  | .write nonblock u pc => weakWriteSpscStep me nonblock u dev pc choice
  | .idle | .done _ => weakSpscEnter dev choice

abbrev WeakSpscSystem := State WeakDev WeakLocal

def Dev.index (dev : Dev) : SpscIndex → BitVec 32
  | .prod => dev.prodIdx
  | .cons => dev.consIdx

-- What the threads find when the device has been quiet.
def weakSpscBoot (dev : Dev) : WeakSpscSystem where
  shared :=
    { numBuffers := dev.numBuffers
      bufferSize := dev.bufferSize
      mem := .fresh dev.index dev.slot
      peakCount := dev.peakCount
      bytesProduced := dev.bytesProduced
      bytesConsumed := dev.bytesConsumed
      msgsProduced := dev.msgsProduced
      msgsConsumed := dev.msgsConsumed
      readSleeps := dev.readSleeps
      writeSleeps := dev.writeSleeps
      sent := []
      received := []
      traced := [] }
  locals := fun _ => .idle

theorem loads_eq_some {dev dev' : WeakDev} {order : LoadOrder} {me i : Nat} {l : SpscIndex}
    {next : BitVec 32 → WeakLocal} {here : WeakLocal}
    (h : dev.loads order me l i next = some (dev', here)) :
    ∃ value mem, dev.mem.load order me l i = some (value, mem) ∧
      dev' = { dev with mem := mem } ∧ here = next value := by
  obtain ⟨⟨value, mem⟩, hload, heq⟩ := Option.map_eq_some_iff.mp h
  obtain ⟨rfl, rfl⟩ := Prod.mk.inj heq
  exact ⟨value, mem, hload, rfl, rfl⟩

end Kbuf
