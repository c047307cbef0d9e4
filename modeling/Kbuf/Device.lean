import Kbuf.Lib.FreeRunning

namespace Kbuf

def KBUF_DEFAULT_NUM_BUFFERS : Nat := 8
def KBUF_DEFAULT_BUFFER_SIZE : Nat := 4096
def KBUF_MAX_NUM_BUFFERS : Nat := 256
def KBUF_MAX_BUFFER_SIZE : Nat := 64 * 1024

inductive Errno where
  | EAGAIN
  | EBADF
  | EBUSY
  | EFAULT
  | EINVAL
  | ENODEV
  | ENOENT
  | ENOMEM
  | ENOSPC
  | ERESTARTSYS
  deriving DecidableEq, Repr

-- enum kbuf_mode
inductive Mode where
  | BLOCKING
  | SPSC
  deriving DecidableEq, Repr

-- The value an `int` argument names, if it names a mode at all.
def Mode.ofInt : Int → Option Mode
  | 0 => some .BLOCKING
  | 1 => some .SPSC
  | _ => none

-- struct kbuf_slot. The length of `data` is the size it was allocated with.
structure Slot where
  data : List UInt8
  len : Nat
  deriving DecidableEq, Repr, Inhabited

-- struct kbuf_dev without its lock, wait queues, mmap buffers and device node.
-- `slots` is the array the pointer points to.
structure Dev where
  slots : List Slot
  numBuffers : Nat
  bufferSize : Nat
  readPos : Nat
  writePos : Nat
  count : Int
  prodIdx : BitVec 32
  consIdx : BitVec 32
  peakCount : Nat
  bytesProduced : BitVec 64
  bytesConsumed : BitVec 64
  msgsProduced : BitVec 64
  msgsConsumed : BitVec 64
  readSleeps : BitVec 64
  writeSleeps : BitVec 64
  mode : Mode
  deriving DecidableEq, Repr

-- struct kbuf_stats
structure Stats where
  bytesProduced : BitVec 64
  bytesConsumed : BitVec 64
  msgsProduced : BitVec 64
  msgsConsumed : BitVec 64
  readSleeps : BitVec 64
  writeSleeps : BitVec 64
  numBuffers : Nat
  bufferSize : Nat
  curCount : Nat
  peakCount : Nat
  deriving DecidableEq, Repr

-- A read's user buffer: the bytes asked for, and how many can be stored
-- before the copy faults.
structure UserRead where
  count : Nat
  room : Nat
  deriving DecidableEq, Repr

-- A write's user buffer: the bytes that can be fetched before the copy faults.
structure UserWrite where
  ubuf : List UInt8
  count : Nat
  deriving DecidableEq, Repr

-- The conversion of an `int` to `unsigned int`.
def toUnsigned (value : Int) : Nat := (value % 2 ^ 32).toNat

def isPowerOf2 (n : Nat) : Bool := n ≠ 0 && n &&& (n - 1) = 0

section UserCopy

-- The buffer after `src` is stored over its start. Bytes past its end hit memory that is not
-- part of the model, so whether there are any is a question of its own.
def overwrite (dst src : List UInt8) : List UInt8 := src.take dst.length ++ dst.drop src.length

-- The bytes that reach the user, and the number that do not.
def copyToUser (room : Nat) (src : List UInt8) (n : Nat) : List UInt8 × Nat :=
  (src.take (min n room), n - room)

-- The kernel buffer afterwards, and the number of bytes not fetched. The part
-- that could not be fetched is padded with zeros.
def copyFromUser (dst ubuf : List UInt8) (n : Nat) : List UInt8 × Nat :=
  (overwrite dst (ubuf.take n ++ List.replicate (n - ubuf.length) 0), n - ubuf.length)

end UserCopy

def Dev.slot (dev : Dev) (index : Nat) : Slot := dev.slots.getD index default

def Dev.setSlot (dev : Dev) (index : Nat) (slot : Slot) : Dev :=
  { dev with slots := dev.slots.set index slot }

-- The slot of a free-running index.
def Dev.masked (dev : Dev) (index : BitVec 32) : Nat :=
  (index &&& (BitVec.ofNat 32 dev.numBuffers - 1)).toNat

-- `kmalloc k` says whether the k-th allocation of the call succeeds. The first
-- is the array, the others are the data buffers.
def allocBuffers (kmalloc : Nat → Bool) (bufferSize : Nat) : Nat → Nat → Option (List Slot)
  | _, 0 => some []
  | i, remaining + 1 =>
      if kmalloc (i + 1) then
        (allocBuffers kmalloc bufferSize (i + 1) remaining).map
          (⟨List.replicate bufferSize 0, 0⟩ :: ·)
      else none

def allocSlots (kmalloc : Nat → Bool) (numBuffers bufferSize : Nat) : Option (List Slot) :=
  if kmalloc 0 then allocBuffers kmalloc bufferSize 0 numBuffers else none

-- An empty ring of the given geometry, with all counters zero.
def emptyDev (mode : Mode) (numBuffers bufferSize : Nat) : Dev where
  slots := List.replicate numBuffers ⟨List.replicate bufferSize 0, 0⟩
  numBuffers := numBuffers
  bufferSize := bufferSize
  readPos := 0
  writePos := 0
  count := 0
  prodIdx := 0
  consIdx := 0
  peakCount := 0
  bytesProduced := 0
  bytesConsumed := 0
  msgsProduced := 0
  msgsConsumed := 0
  readSleeps := 0
  writeSleeps := 0
  mode := mode

-- The device that `kbuf_init` and `kbuf_dyn_create` set up.
def freshDev : Dev := emptyDev .BLOCKING KBUF_DEFAULT_NUM_BUFFERS KBUF_DEFAULT_BUFFER_SIZE

section Blocking

def ringIsEmpty (dev : Dev) : Bool := dev.count = 0

def ringIsFull (dev : Dev) : Bool := toUnsigned dev.count = dev.numBuffers

def ringConsume (dev : Dev) (u : UserRead) : Dev × Except Errno Nat × List UInt8 :=
  let slot := dev.slot dev.readPos
  let len := min u.count slot.len
  let (out, left) := copyToUser u.room slot.data len
  if left ≠ 0 then (dev, .error .EFAULT, out)
  else
    ({ dev with
        readPos := (dev.readPos + 1) % dev.numBuffers
        count := dev.count - 1
        bytesConsumed := dev.bytesConsumed + BitVec.ofNat 64 len
        msgsConsumed := dev.msgsConsumed + 1 }, .ok len, out)

def ringProduce (dev : Dev) (u : UserWrite) : Dev × Except Errno Nat :=
  let slot := dev.slot dev.writePos
  let (data, left) := copyFromUser slot.data u.ubuf u.count
  if left ≠ 0 then (dev.setSlot dev.writePos { slot with data := data }, .error .EFAULT)
  else
    ({ dev.setSlot dev.writePos ⟨data, u.count⟩ with
        writePos := (dev.writePos + 1) % dev.numBuffers
        count := dev.count + 1
        peakCount := if dev.peakCount < toUnsigned (dev.count + 1)
          then toUnsigned (dev.count + 1) else dev.peakCount
        bytesProduced := dev.bytesProduced + BitVec.ofNat 64 u.count
        msgsProduced := dev.msgsProduced + 1 }, .ok u.count)

end Blocking

section Spsc

def spscIsEmpty (dev : Dev) : Bool := dev.prodIdx = dev.consIdx

def spscIsFull (dev : Dev) : Bool := dev.numBuffers ≤ (dev.prodIdx - dev.consIdx).toNat

def spscConsume (dev : Dev) (u : UserRead) : Dev × Except Errno Nat × List UInt8 :=
  let slot := dev.slot (dev.masked dev.consIdx)
  let len := min u.count slot.len
  let (out, left) := copyToUser u.room slot.data len
  if left ≠ 0 then (dev, .error .EFAULT, out)
  else
    ({ dev with
        consIdx := dev.consIdx + 1
        bytesConsumed := dev.bytesConsumed + BitVec.ofNat 64 len
        msgsConsumed := dev.msgsConsumed + 1 }, .ok len, out)

def spscProduce (dev : Dev) (u : UserWrite) : Dev × Except Errno Nat :=
  let index := dev.masked dev.prodIdx
  let slot := dev.slot index
  let (data, left) := copyFromUser slot.data u.ubuf u.count
  if left ≠ 0 then (dev.setSlot index { slot with data := data }, .error .EFAULT)
  else
    let occ := (dev.prodIdx + 1 - dev.consIdx).toNat
    ({ dev.setSlot index ⟨data, u.count⟩ with
        prodIdx := dev.prodIdx + 1
        bytesProduced := dev.bytesProduced + BitVec.ofNat 64 u.count
        msgsProduced := dev.msgsProduced + 1
        peakCount := if dev.peakCount < occ then occ else dev.peakCount }, .ok u.count)

end Spsc

def occupancy (dev : Dev) : Nat :=
  match dev.mode with
  | .SPSC => (dev.prodIdx - dev.consIdx).toNat
  | .BLOCKING => toUnsigned dev.count

end Kbuf
