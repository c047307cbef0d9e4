import Kbuf.Device

namespace Kbuf

def EPOLLIN : BitVec 32 := 0x001
def EPOLLOUT : BitVec 32 := 0x004
def EPOLLRDNORM : BitVec 32 := 0x040
def EPOLLWRNORM : BitVec 32 := 0x100

-- What a call gives back: its return value, and what it stored for the user.
inductive Ret where
  | bytes (val : Except Errno Nat) (ubuf : List UInt8)
  | size (val : Except Errno Nat)
  | status (val : Except Errno Unit)
  | stats (val : Except Errno Stats)
  | mask (val : BitVec 32)
  deriving DecidableEq

-- KBUF_IOCRESIZE: whether the argument can be fetched, the argument, and the
-- outcome of the call's allocations.
structure ResizeArg where
  fault : Bool
  numBuffers : Nat
  bufferSize : Nat
  kmalloc : Nat → Bool

-- KBUF_IOCSMODE: whether the argument can be fetched, and the argument.
structure SmodeArg where
  fault : Bool
  mode : Int
  deriving DecidableEq, Repr

section FileOperations

-- kbuf_read on an O_NONBLOCK file, with nobody else inside the device.
def kbufRead (dev : Dev) (u : UserRead) : Dev × Ret :=
  match dev.mode with
  | .SPSC =>
      if spscIsEmpty dev then (dev, .bytes (.error .EAGAIN) [])
      else
        let (dev, val, out) := spscConsume dev u
        (dev, .bytes val out)
  | .BLOCKING =>
      if ringIsEmpty dev then (dev, .bytes (.error .EAGAIN) [])
      else
        let (dev, val, out) := ringConsume dev u
        (dev, .bytes val out)

def UserWrite.clamp (u : UserWrite) (bufferSize : Nat) : UserWrite :=
  { u with count := if u.count > bufferSize then bufferSize else u.count }

-- kbuf_write on an O_NONBLOCK file, with nobody else inside the device.
def kbufWrite (dev : Dev) (u : UserWrite) : Dev × Ret :=
  match dev.mode with
  | .SPSC =>
      let u := u.clamp dev.bufferSize
      if spscIsFull dev then (dev, .size (.error .EAGAIN))
      else
        let (dev, val) := spscProduce dev u
        (dev, .size val)
  | .BLOCKING =>
      let u := u.clamp dev.bufferSize
      if ringIsFull dev then (dev, .size (.error .EAGAIN))
      else
        let (dev, val) := ringProduce dev u
        (dev, .size val)

def pollMask (isEmpty isFull : Bool) : BitVec 32 :=
  (if isEmpty then 0 else EPOLLIN ||| EPOLLRDNORM) |||
    (if isFull then 0 else EPOLLOUT ||| EPOLLWRNORM)

def kbufPoll (dev : Dev) : BitVec 32 :=
  match dev.mode with
  | .SPSC => pollMask (spscIsEmpty dev) (spscIsFull dev)
  | .BLOCKING => pollMask (ringIsEmpty dev) (ringIsFull dev)

end FileOperations

section Ioctl

def iocGetstats (dev : Dev) : Stats where
  bytesProduced := dev.bytesProduced
  bytesConsumed := dev.bytesConsumed
  msgsProduced := dev.msgsProduced
  msgsConsumed := dev.msgsConsumed
  readSleeps := dev.readSleeps
  writeSleeps := dev.writeSleeps
  numBuffers := dev.numBuffers
  bufferSize := dev.bufferSize
  curCount := occupancy dev
  peakCount := dev.peakCount

def iocReset (dev : Dev) : Dev :=
  { dev with
    bytesProduced := 0
    bytesConsumed := 0
    msgsProduced := 0
    msgsConsumed := 0
    readSleeps := 0
    writeSleeps := 0
    peakCount := toUnsigned dev.count }

-- What kbuf_ioc_resize tests before it allocates, outside the lock.
def resizeCheck (dev : Dev) (rq : ResizeArg) : Except Errno Unit :=
  if rq.fault then .error .EFAULT
  else if rq.numBuffers < 1 ∨ rq.numBuffers > KBUF_MAX_NUM_BUFFERS then .error .EINVAL
  else if rq.bufferSize < 1 ∨ rq.bufferSize > KBUF_MAX_BUFFER_SIZE then .error .EINVAL
  else if dev.mode = .SPSC ∧ ¬isPowerOf2 rq.numBuffers then .error .EINVAL
  else .ok ()

def Dev.resized (dev : Dev) (rq : ResizeArg) (slots : List Slot) : Dev :=
  { dev with
    slots := slots
    numBuffers := rq.numBuffers
    bufferSize := rq.bufferSize
    readPos := 0
    writePos := 0
    count := 0
    prodIdx := 0
    consIdx := 0
    peakCount := 0 }

-- What kbuf_ioc_resize does under the lock.
def resizeSwap (dev : Dev) (rq : ResizeArg) (slots : List Slot) : Except Errno Dev :=
  if occupancy dev ≠ 0 then .error .EBUSY else .ok (dev.resized rq slots)

def iocResize (dev : Dev) (rq : ResizeArg) : Dev × Except Errno Unit :=
  match resizeCheck dev rq with
  | .error e => (dev, .error e)
  | .ok () =>
      match allocSlots rq.kmalloc rq.numBuffers rq.bufferSize with
      | none => (dev, .error .ENOMEM)
      | some slots =>
          match resizeSwap dev rq slots with
          | .error e => (dev, .error e)
          | .ok dev => (dev, .ok ())

-- What kbuf_ioc_smode tests before it takes the lock.
def smodeCheck (arg : SmodeArg) : Except Errno Mode :=
  if arg.fault then .error .EFAULT
  else
    match Mode.ofInt arg.mode with
    | none => .error .EINVAL
    | some mode => .ok mode

def Dev.switched (dev : Dev) (mode : Mode) : Dev :=
  { dev with
    readPos := 0
    writePos := 0
    count := 0
    prodIdx := 0
    consIdx := 0
    mode := mode }

-- What kbuf_ioc_smode does under the lock.
def smodeSwitch (dev : Dev) (mode : Mode) : Except Errno Dev :=
  if occupancy dev ≠ 0 then .error .EBUSY
  else if mode = .SPSC ∧ ¬isPowerOf2 dev.numBuffers then .error .EINVAL
  else .ok (dev.switched mode)

def iocSmode (dev : Dev) (arg : SmodeArg) : Dev × Except Errno Unit :=
  match smodeCheck arg with
  | .error e => (dev, .error e)
  | .ok mode =>
      match smodeSwitch dev mode with
      | .error e => (dev, .error e)
      | .ok dev => (dev, .ok ())

end Ioctl

inductive Call where
  | read (u : UserRead)
  | write (u : UserWrite)
  | resize (rq : ResizeArg)
  | smode (arg : SmodeArg)
  | reset
  | getstats (fault : Bool)
  | poll

-- One call, executed atomically.
def exec (dev : Dev) : Call → Dev × Ret
  | .read u => kbufRead dev u
  | .write u => kbufWrite dev u
  | .resize rq =>
      let (dev, val) := iocResize dev rq
      (dev, .status val)
  | .smode arg =>
      let (dev, val) := iocSmode dev arg
      (dev, .status val)
  | .reset => (iocReset dev, .status (.ok ()))
  | .getstats fault => (dev, .stats (if fault then .error .EFAULT else .ok (iocGetstats dev)))
  | .poll => (dev, .mask (kbufPoll dev))

def execAll (dev : Dev) : List Call → Dev × List Ret
  | [] => (dev, [])
  | call :: calls =>
      let (next, ret) := exec dev call
      let (last, rets) := execAll next calls
      (last, ret :: rets)

end Kbuf
