import Kbuf.Lib.Interleaving
import Kbuf.Uapi.Ioctl

namespace Kbuf

open Interleaving UserSpace

section SystemCalls

variable {pageSize : Nat}

-- The value that a file operation returns, and what it has stored in the user's buffer.
def Ret.value : Ret → Except Errno Nat
  | .bytes val _ => val
  | .size val => val
  | .status val => val.map fun _ => 0
  | .stats val => val.map fun _ => 0
  | .mask val => .ok val.toNat

def Ret.stored : Ret → List UInt8
  | .bytes _ out => out
  | _ => []

-- read and write on a file of device `dev` that was opened with O_NONBLOCK, so that neither
-- ever sleeps
def sysRead (k : Devices pageSize) (task : Task) (dev buf count : Nat) :
    Devices pageSize × Task × Except ErrCode Nat :=
  let room := reach task.space.writable buf count
  let (next, ret) := kbufRead (k.dev dev) ⟨count, room⟩
  (k.setDev dev next, { task with space := task.space.poke buf ret.stored },
    ret.value.mapError Errno.code)

def sysWrite (k : Devices pageSize) (task : Task) (dev buf count : Nat) :
    Devices pageSize × Except ErrCode Nat :=
  let (ubuf, _) := task.space.copyIn buf count
  let (next, ret) := kbufWrite (k.dev dev) ⟨ubuf, count⟩
  (k.setDev dev next, ret.value.mapError Errno.code)

end SystemCalls

section Methods

variable {pageSize : Nat}

-- The methods of Device, with the addresses of the spans and of the local variables that
-- they pass to the kernel. The ioctl of reset has no argument: `arg` is what the register
-- happens to hold.
inductive Method where
  | read (buf count : Nat)
  | write (buf count : Nat)
  | stats (s : Nat)
  | reset (arg : Nat)
  | resize (r : Nat) (numBuffers bufferSize : BitVec 32)
  | setMode (v : Nat) (mode : Mode)
  | exportDmabuf (dfd : Nat)
  | runImportSelftest (dfd : Nat) (dmabuf : BitVec 32)

-- What a method returns. A read returns a size, and leaves as many bytes in the span.
inductive Value where
  | bytes (out : List UInt8)
  | size (n : Nat)
  | stats (st : Stats)
  | unit
  | fd (fd : BitVec 32)
  deriving DecidableEq

-- static_cast<int>(m)
def Mode.code : Mode → BitVec 32
  | .BLOCKING => 0
  | .SPSC => 1

-- `if (::ioctl(...) != 0) throw_errno(...)`, by the errno that is thrown
def checked (val : Except ErrCode Unit) (value : Value) : Except Nat Value :=
  (libcOf (retOf (val.map fun _ => 0))).map fun _ => value

def Task.poke (task : Task) (addr : Nat) (bytes : List UInt8) : Task :=
  { task with space := task.space.poke addr bytes }

-- A method on a Device that holds a file of device `dev`.
def Method.run (k : Devices pageSize) (task : Task) (dev : Nat) (env : IocEnv) :
    Method → Devices pageSize × Task × Except Nat Value
  | .read buf count =>
      let (k, task, val) := sysRead k task dev buf count
      (k, task, (libcOf (retOf val)).map fun n => .bytes (task.space.peek buf n))
  | .write buf count =>
      let (k, val) := sysWrite k task dev buf count
      (k, task, (libcOf (retOf val)).map .size)
  | .stats s =>
      let task := task.poke s (List.replicate statsLayout.sum 0)
      let (k, task, val) := kbufIoctl k task dev KBUF_IOCGSTATS s env
      (k, task, checked val (.stats (Stats.ofBytes (task.space.peek s statsLayout.sum))))
  | .reset arg =>
      let (k, task, val) := kbufIoctl k task dev KBUF_IOCRESET arg env
      (k, task, checked val .unit)
  | .resize r numBuffers bufferSize =>
      let task := task.poke r (Words.pack resizeLayout [numBuffers.toNat, bufferSize.toNat])
      let (k, task, val) := kbufIoctl k task dev KBUF_IOCRESIZE r env
      (k, task, checked val .unit)
  | .setMode v mode =>
      let task := task.poke v (intBytes mode.code)
      let (k, task, val) := kbufIoctl k task dev KBUF_IOCSMODE v env
      (k, task, checked val .unit)
  | .exportDmabuf dfd =>
      let task := task.poke dfd (intBytes (-1))
      let (k, task, val) := kbufIoctl k task dev KBUF_IOCEXPORT dfd env
      (k, task, checked val (.fd (ofIntBytes (task.space.peek dfd sizeofInt))))
  | .runImportSelftest dfd dmabuf =>
      let task := task.poke dfd (intBytes dmabuf)
      let (k, task, val) := kbufIoctl k task dev KBUF_IOCIMPORT dfd env
      (k, task, checked val .unit)

-- The spans and the local variables of a method lie in memory that the process can use.
def Method.Valid (space : Space) : Method → Prop
  | .read buf count => Allowed space.writable buf count
  | .write buf count => Allowed space.readable buf count
  | .stats s => Allowed space.writable s statsLayout.sum
  | .reset _ => True
  | .resize r _ _ => Allowed space.readable r resizeLayout.sum
  | .setMode v _ => Allowed space.readable v sizeofInt
  | .exportDmabuf dfd => Allowed space.writable dfd sizeofInt
  | .runImportSelftest dfd _ => Allowed space.readable dfd sizeofInt

instance (space : Space) (m : Method) : Decidable (m.Valid space) :=
  match m with
  | .read .. => inferInstanceAs (Decidable (Allowed ..))
  | .write .. => inferInstanceAs (Decidable (Allowed ..))
  | .stats _ => inferInstanceAs (Decidable (Allowed ..))
  | .reset _ => inferInstanceAs (Decidable True)
  | .resize .. => inferInstanceAs (Decidable (Allowed ..))
  | .setMode .. => inferInstanceAs (Decidable (Allowed ..))
  | .exportDmabuf _ => inferInstanceAs (Decidable (Allowed ..))
  | .runImportSelftest .. => inferInstanceAs (Decidable (Allowed ..))

end Methods

section Programs

variable {pageSize : Nat}

-- A process that uses kbuf++. `last` is what its last method returned or threw, and on which
-- device.
structure Client where
  task : Task
  last : Option (Nat × Except Nat Value)

inductive ClientChoice where
  | openDevice (dev : Nat)
  | close (fd : Nat)
  | store (addr : Nat) (bytes : List UInt8)
  | method (fd : BitVec 32) (m : Method) (env : IocEnv)

def openFiles (files : List (Option File)) (dev : Nat) : List (Option File) :=
  match getUnusedFd files with
  | .error _ => files
  | .ok fd => fdInstall files fd (.kbuf dev)

-- Any number of processes, each with memory and descriptors of its own. Every file is
-- O_NONBLOCK, and a method is one step: no two calls overlap in time.
def clients (pageSize : Nat) : Program (Devices pageSize) Client ClientChoice :=
  fun _ choice here k =>
    match choice with
    | .openDevice dev =>
        some (k, { here with task := { here.task with files := openFiles here.task.files dev } })
    | .close fd =>
        some (k, { here with task := { here.task with files := closeFd here.task.files fd } })
    | .store addr bytes => some (k, { here with task := here.task.poke addr bytes })
    | .method fd m env =>
        match fget here.task.files fd with
        | some (.kbuf dev) =>
            let (k, task, result) := m.run k here.task dev env
            some (k, ⟨task, some (dev, result)⟩)
        | _ => none

-- A store outside the memory of the process would end it.
def MethodsValid (s : State (Devices pageSize) Client) (act : Act ClientChoice) : Prop :=
  match act.choice with
  | .method _ m _ => m.Valid (s.locals act.pid).task.space
  | .store addr bytes => Allowed (s.locals act.pid).task.space.writable addr bytes.length
  | .openDevice _ | .close _ => True

instance (s : State (Devices pageSize) Client) (act : Act ClientChoice) :
    Decidable (MethodsValid s act) :=
  match act with
  | ⟨p, .method _ m _⟩ => inferInstanceAs (Decidable (m.Valid (s.locals p).task.space))
  | ⟨p, .store addr bytes⟩ =>
      inferInstanceAs (Decidable (Allowed (s.locals p).task.space.writable addr bytes.length))
  | ⟨_, .openDevice _⟩ => inferInstanceAs (Decidable True)
  | ⟨_, .close _⟩ => inferInstanceAs (Decidable True)

-- What the processes see: who called a method on which device, and how it ended.
def clientNote (act : Act ClientChoice) (here : Client) :
    Option (Nat × Nat × Except Nat Value) :=
  match act.choice with
  | .method .. => here.last.map fun seen => (act.pid, seen)
  | .openDevice _ | .close _ | .store .. => none

def clientsBoot (rings : Nat → Backing pageSize) (spaces : Nat → Space) :
    State (Devices pageSize) Client where
  shared := ⟨fun _ => freshDev, rings⟩
  locals p := ⟨⟨spaces p, []⟩, none⟩

end Programs

section Typed

-- The interface that the methods stand for: calls with typed arguments and results, without
-- memory, command numbers or pages.
structure TypedUser where
  files : List (Option File)
  last : Option (Nat × Except Nat Value)

structure TypedDevices where
  dev : Nat → Dev
  data : Nat → List UInt8

inductive TypedChoice where
  | openDevice (dev : Nat)
  | close (fd : Nat)
  | call (fd : BitVec 32) (call : Call)
  | exportDmabuf (fd : BitVec 32) (answer : Option ErrCode)
  | importSelftest (fd dmabuf : BitVec 32) (answer : Option ErrCode)

def thrown : Except Errno Value → Except Nat Value
  | .error e => .error e.code.val
  | .ok value => .ok value

def Ret.result : Ret → Except Nat Value
  | .bytes val out => thrown (val.map fun _ => .bytes out)
  | .size val => thrown (val.map .size)
  | .status val => thrown (val.map fun _ => .unit)
  | .stats val => thrown (val.map .stats)
  | .mask val => .ok (.size val.toNat)

def callStep (here : TypedUser) (k : TypedDevices) (dev : Nat) (call : Call) :
    TypedDevices × TypedUser :=
  let (next, ret) := exec (k.dev dev) call
  ({ k with dev := Function.update k.dev dev next }, { here with last := some (dev, ret.result) })

-- The new descriptor is the lowest one that is free.
def exportedFd (answer : Option ErrCode) (files : List (Option File)) : Except ErrCode Nat :=
  match answer with
  | some e => .error e
  | none => getUnusedFd files

def exportedStep (here : TypedUser) (dev : Nat) (answer : Option ErrCode) : TypedUser :=
  match exportedFd answer here.files with
  | .error e => { here with last := some (dev, .error e.val) }
  | .ok n => ⟨fdInstall here.files n (.dmabuf dev), some (dev, .ok (.fd (BitVec.ofNat 32 n)))⟩

-- A self-test that succeeds leaves the first word of the exported ring in the second place.
def importedStep (here : TypedUser) (k : TypedDevices) (dev : Nat) (dmabuf : BitVec 32)
    (answer : Option ErrCode) : Option (TypedDevices × TypedUser) :=
  match answer, fget here.files dmabuf with
  | some e, _ => some (k, { here with last := some (dev, .error e.val) })
  | none, some (.dmabuf ring) =>
      let data := k.data ring
      some ({ k with
          data := Function.update k.data ring (data.take 4 ++ (data.take 4 ++ data.drop 8)) },
        { here with last := some (dev, .ok .unit) })
  | none, _ => none

def typed : Program TypedDevices TypedUser TypedChoice := fun _ choice here k =>
  match choice with
  | .openDevice dev => some (k, { here with files := openFiles here.files dev })
  | .close fd => some (k, { here with files := closeFd here.files fd })
  | .call fd call =>
      match fget here.files fd with
      | some (.kbuf dev) => some (callStep here k dev call)
      | _ => none
  | .exportDmabuf fd answer =>
      match fget here.files fd with
      | some (.kbuf dev) => some (k, exportedStep here dev answer)
      | _ => none
  | .importSelftest fd dmabuf answer =>
      match fget here.files fd with
      | some (.kbuf dev) => importedStep here k dev dmabuf answer
      | _ => none

def typedNote (act : Act TypedChoice) (here : TypedUser) : Option (Nat × Nat × Except Nat Value) :=
  match act.choice with
  | .call .. | .exportDmabuf .. | .importSelftest .. => here.last.map fun seen => (act.pid, seen)
  | .openDevice _ | .close _ => none

def typedBoot (data : Nat → List UInt8) : State TypedDevices TypedUser where
  shared := ⟨fun _ => freshDev, data⟩
  locals _ := ⟨[], none⟩

end Typed

end Kbuf
