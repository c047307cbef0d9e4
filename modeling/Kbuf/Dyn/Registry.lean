import Kbuf.Device
import Kbuf.Lib.Interleaving

namespace Kbuf

open Interleaving

def KBUF_DYN_MAX : Nat := 64

section State

-- A struct kbuf_dev: one of the array of static devices, or one on the heap.
inductive DevPtr where
  | static (minor : Nat)
  | dyn (ptr : Nat)
  deriving DecidableEq

-- A dynamic device. `dropped`, `released` and `aborted` count how often its
-- registered reference was dropped, kbuf_dev_release ran on it, and the error
-- path of kbuf_dyn_create freed it. No step reads them.
structure DynDev where
  minorOff : Nat
  ref : Nat
  slots : Bool
  mmap : Bool
  cdev : Bool
  node : Bool
  dropped : Nat
  released : Nat
  aborted : Nat

-- Heap memory that no device lives in counts as one that is gone.
def DynDev.vacant : DynDev := ⟨0, 0, false, false, false, false, 1, 1, 0⟩

-- What kzalloc and kref_init leave: the registered reference only.
def DynDev.fresh (minorOff : Nat) : DynDev := ⟨minorOff, 1, false, false, false, false, 0, 0, 0⟩

inductive HandleKind where
  | file
  | dmabuf
  deriving DecidableEq

-- A struct file, of a device or of a dma-buf: the device behind it, how many
-- descriptors and mappings refer to it, and how many calls are running on it.
structure Handle where
  kind : HandleKind
  dev : DevPtr
  fds : Nat
  busy : Nat
  deriving DecidableEq

def Handle.none : Handle := ⟨.file, .static 0, 0, 0⟩

def Handle.live (handle : Handle) : Bool := handle.fds ≠ 0 ∨ handle.busy ≠ 0

-- The dynamic devices, the list and the ids they are found by, and everything
-- that refers to a device from outside.
structure Registry where
  ndevices : Nat
  devs : Nat → DynDev
  nextDev : Nat
  list : List Nat
  ida : List Nat
  handles : Nat → Handle
  nextHandle : Nat
  loaded : Bool
  unloaded : Bool

def Registry.setDev (r : Registry) (ptr : Nat) (dev : DynDev) : Registry :=
  { r with devs := Function.update r.devs ptr dev }

def Registry.setHandle (r : Registry) (handle : Nat) (value : Handle) : Registry :=
  { r with handles := Function.update r.handles handle value }

def Registry.addHandle (r : Registry) (value : Handle) : Registry :=
  { r with
    handles := Function.update r.handles r.nextHandle value
    nextHandle := r.nextHandle + 1 }

def Registry.krefGet (r : Registry) (ptr : Nat) : Registry :=
  r.setDev ptr { r.devs ptr with ref := (r.devs ptr).ref + 1 }

-- `if (dev->dynamic) kref_get(&dev->ref)`
def Registry.pin (r : Registry) : DevPtr → Registry
  | .static _ => r
  | .dyn ptr => r.krefGet ptr

def Registry.krefPut (r : Registry) (ptr : Nat) : Registry :=
  r.setDev ptr { r.devs ptr with ref := (r.devs ptr).ref - 1 }

def Registry.find (r : Registry) (id : Int) : Option Nat :=
  r.list.find? fun ptr => ((r.devs ptr).minorOff : Int) = id

end State

section Calls

inductive DynRet where
  | ok
  | id (off : Nat)
  | handle (handle : Nat)
  | error (e : Errno)
  deriving DecidableEq

-- What a process goes on with after it has dropped a reference.
inductive Cont where
  | ret (ret : DynRet)
  | fdput (handle : Nat) (ret : DynRet)
  | unload
  deriving DecidableEq

inductive CreatePc where
  | ida
  | kzalloc (off : Nat)
  | slots (ptr : Nat)
  | mmap (ptr : Nat)
  | cdevAlloc (ptr : Nat)
  | cdevAdd (ptr : Nat)
  | deviceCreate (ptr : Nat)
  | listAdd (ptr : Nat)
  | putUser (off : Nat)
  | errCdev (ptr : Nat) (e : Errno)
  | errMmap (ptr : Nat) (e : Errno)
  | errSlots (ptr : Nat) (e : Errno)
  | errFree (ptr : Nat) (e : Errno)
  | errIda (off : Nat) (e : Errno)
  deriving DecidableEq

inductive TeardownPc where
  | deviceDestroy
  | cdevDel
  | put
  deriving DecidableEq

inductive OpenPc where
  | lookup (minor : Nat)
  | opened (dev : DevPtr)
  deriving DecidableEq

inductive ExportPc where
  | name (dev : DevPtr)
  | get (dev : DevPtr)
  | dmaBufExport (dev : DevPtr)
  | dmaBufFd (buf : Nat)
  | putUser (buf : Nat)
  | closeFd (buf : Nat)
  deriving DecidableEq

inductive FileCall where
  | use
  | iocResize
  | iocExport
  deriving DecidableEq

inductive DynLocal where
  | idle
  | create (pc : CreatePc)
  | getUser (id : Int)
  | unlink (id : Int) (rollback : Bool)
  | teardown (ptr : Nat) (pc : TeardownPc) (cont : Cont)
  | put (ptr : Nat) (cont : Cont)
  | release (ptr : Nat) (cont : Cont)
  | opening (pc : OpenPc)
  | dup (handle : Nat)
  | close (handle : Nat)
  | closing (dev : DevPtr) (cont : Cont)
  | fdget (handle : Nat) (call : FileCall)
  | use (handle : Nat) (dev : DevPtr)
  | resizing (handle : Nat) (dev : DevPtr)
  | exporting (handle : Nat) (pc : ExportPc)
  | fdput (handle : Nat) (ret : DynRet)
  | unload
  | done (ret : DynRet)
  deriving DecidableEq

inductive DynRequest where
  | create
  | destroy (id : Int)
  | openMinor (minor : Nat)
  | dup (handle : Nat)
  | close (handle : Nat)
  | use (handle : Nat)
  | iocResize (handle : Nat)
  | iocExport (handle : Nat)
  | unload

-- How the rest of the kernel answers a step: it goes ahead, it fails, or
-- ida_alloc_max hands out an id.
inductive DynChoice where
  | start (request : DynRequest)
  | go
  | fail (e : Errno)
  | id (off : Nat)

def Cont.resume : Cont → DynLocal
  | .ret val => .done val
  | .fdput handle val => .fdput handle val
  | .unload => .unload

-- `if (dev->dynamic) kref_put(&dev->ref, kbuf_dev_release)`
def DevPtr.unpin (dev : DevPtr) (cont : Cont) : DynLocal :=
  match dev with
  | .static _ => cont.resume
  | .dyn ptr => .put ptr cont

-- The file operation that the last reference to a struct file runs: kbuf_release
-- or kbuf_dmabuf_release.
def Handle.dispose (handle : Handle) (cont : Cont) : DynLocal :=
  match handle.kind with
  | .file => .closing handle.dev cont
  | .dmabuf => handle.dev.unpin cont

def Handle.next (handle : Handle) (cont : Cont) : DynLocal :=
  if handle.live then cont.resume else handle.dispose cont

end Calls

section Steps

-- kbuf_dyn_create and the CREATE case of kbuf_ctl_ioctl. Until it is listed the
-- device is known to the creating process only.
def createStep (r : Registry) : CreatePc → DynChoice → Option (Registry × DynLocal)
  | .ida, .id off =>
      if off < KBUF_DYN_MAX ∧ off ∉ r.ida then
        some ({ r with ida := off :: r.ida }, .create (.kzalloc off))
      else none
  | .ida, .fail e => some (r, .done (.error e))
  | .kzalloc off, .go =>
      some ({ r.setDev r.nextDev (.fresh off) with nextDev := r.nextDev + 1 },
        .create (.slots r.nextDev))
  | .kzalloc off, .fail _ => some (r, .create (.errIda off .ENOMEM))
  | .slots ptr, .go =>
      some (r.setDev ptr { r.devs ptr with slots := true }, .create (.mmap ptr))
  | .slots ptr, .fail _ => some (r, .create (.errFree ptr .ENOMEM))
  | .mmap ptr, .go =>
      some (r.setDev ptr { r.devs ptr with mmap := true }, .create (.cdevAlloc ptr))
  | .mmap ptr, .fail e => some (r, .create (.errSlots ptr e))
  | .cdevAlloc ptr, .go => some (r, .create (.cdevAdd ptr))
  | .cdevAlloc ptr, .fail _ => some (r, .create (.errMmap ptr .ENOMEM))
  | .cdevAdd ptr, .go =>
      some (r.setDev ptr { r.devs ptr with cdev := true }, .create (.deviceCreate ptr))
  | .cdevAdd ptr, .fail e => some (r, .create (.errMmap ptr e))
  | .deviceCreate ptr, .go =>
      some (r.setDev ptr { r.devs ptr with node := true }, .create (.listAdd ptr))
  | .deviceCreate ptr, .fail e => some (r, .create (.errCdev ptr e))
  | .listAdd ptr, .go =>
      some ({ r with list := r.list ++ [ptr] }, .create (.putUser (r.devs ptr).minorOff))
  | .putUser off, .go => some (r, .done (.id off))
  | .putUser off, .fail _ => some (r, .unlink off true)
  | .errCdev ptr e, .go =>
      some (r.setDev ptr { r.devs ptr with cdev := false }, .create (.errMmap ptr e))
  | .errMmap ptr e, .go =>
      some (r.setDev ptr { r.devs ptr with mmap := false }, .create (.errSlots ptr e))
  | .errSlots ptr e, .go =>
      some (r.setDev ptr { r.devs ptr with slots := false }, .create (.errFree ptr e))
  | .errFree ptr e, .go =>
      some (r.setDev ptr { r.devs ptr with aborted := (r.devs ptr).aborted + 1 },
        .create (.errIda (r.devs ptr).minorOff e))
  | .errIda off e, .go => some ({ r with ida := r.ida.erase off }, .done (.error e))
  | _, _ => none

-- kbuf_dyn_destroy, for KBUF_CTL_DESTROY or to take a CREATE back
def unlinkStep (r : Registry) (id : Int) (rollback : Bool) :
    DynChoice → Option (Registry × DynLocal)
  | .go =>
      match r.find id with
      | none => some (r, .done (.error (if rollback then .EFAULT else .ENOENT)))
      | some ptr =>
          some ({ r with list := r.list.erase ptr },
            .teardown ptr .deviceDestroy (.ret (if rollback then .error .EFAULT else .ok)))
  | _ => none

-- kref_put: the caller that drops the last reference runs kbuf_dev_release.
def krefPutStep (r : Registry) (ptr : Nat) (cont : Cont) : Registry × DynLocal :=
  (r.krefPut ptr, if (r.devs ptr).ref - 1 = 0 then .release ptr cont else cont.resume)

-- kbuf_dyn_teardown
def teardownStep (r : Registry) (ptr : Nat) (cont : Cont) :
    TeardownPc → DynChoice → Option (Registry × DynLocal)
  | .deviceDestroy, .go =>
      some (r.setDev ptr { r.devs ptr with node := false }, .teardown ptr .cdevDel cont)
  | .cdevDel, .go =>
      some (r.setDev ptr { r.devs ptr with cdev := false }, .teardown ptr .put cont)
  | .put, .go =>
      some (krefPutStep
        (r.setDev ptr { r.devs ptr with dropped := (r.devs ptr).dropped + 1 }) ptr cont)
  | _, _ => none

-- kbuf_dev_release
def releaseStep (r : Registry) (ptr : Nat) (cont : Cont) : DynChoice → Option (Registry × DynLocal)
  | .go =>
      some ({ r.setDev ptr { r.devs ptr with
          mmap := false
          slots := false
          released := (r.devs ptr).released + 1 } with
        ida := r.ida.erase (r.devs ptr).minorOff }, cont.resume)
  | _ => none

-- kbuf_open. kbuf_dyn_get finds the device and takes a reference under kbuf_dyn_lock.
def openStep (r : Registry) : OpenPc → DynChoice → Option (Registry × DynLocal)
  | .lookup minor, .go =>
      if minor < r.ndevices then some (r, .opening (.opened (.static minor)))
      else
        match r.find ((minor - r.ndevices : Nat) : Int) with
        | none => some (r, .done (.error .ENODEV))
        | some ptr => some (r.krefGet ptr, .opening (.opened (.dyn ptr)))
  | .opened dev, .go => some (r.addHandle ⟨.file, dev, 1, 0⟩, .done (.handle r.nextHandle))
  | _, _ => none

-- Another descriptor or mapping of the same struct file.
def dupStep (r : Registry) (handle : Nat) : DynChoice → Option (Registry × DynLocal)
  | .go =>
      if 0 < (r.handles handle).fds then
        some (r.setHandle handle
          { r.handles handle with fds := (r.handles handle).fds + 1 }, .done .ok)
      else some (r, .done (.error .EBADF))
  | _ => none

-- One descriptor or mapping less.
def dropFd (r : Registry) (handle : Nat) (cont : Cont) : Registry × DynLocal :=
  let value := { r.handles handle with fds := (r.handles handle).fds - 1 }
  (r.setHandle handle value, value.next cont)

def closeStep (r : Registry) (handle : Nat) : DynChoice → Option (Registry × DynLocal)
  | .go =>
      if 0 < (r.handles handle).fds then some (dropFd r handle (.ret .ok))
      else some (r, .done (.error .EBADF))
  | _ => none

-- A call on an open file holds the file until it returns.
def fdgetStep (r : Registry) (handle : Nat) (call : FileCall) :
    DynChoice → Option (Registry × DynLocal)
  | .go =>
      let value := r.handles handle
      if value.kind = .file ∧ 0 < value.fds then
        some (r.setHandle handle { value with busy := value.busy + 1 },
          match call with
          | .use => .use handle value.dev
          | .iocResize => .resizing handle value.dev
          | .iocExport => .exporting handle (.name value.dev))
      else some (r, .done (.error .EBADF))
  | _ => none

-- One running call less.
def dropBusy (r : Registry) (handle : Nat) (cont : Cont) : Registry × DynLocal :=
  let value := { r.handles handle with busy := (r.handles handle).busy - 1 }
  (r.setHandle handle value, value.next cont)

-- kbuf_ioc_resize, which names the device in the log if it succeeds. What it does
-- to the ring is no part of the registry.
def resizingStep (r : Registry) (handle : Nat) : DynChoice → Option (Registry × DynLocal)
  | .go => some (r, .fdput handle .ok)
  | .fail e => some (r, .fdput handle (.error e))
  | _ => none

-- kbuf_dmabuf_export and kbuf_ioc_export
def exportStep (r : Registry) (handle : Nat) :
    ExportPc → DynChoice → Option (Registry × DynLocal)
  | .name dev, .go => some (r, .exporting handle (.get dev))
  | .get dev, .go => some (r.pin dev, .exporting handle (.dmaBufExport dev))
  | .dmaBufExport dev, .go =>
      some (r.addHandle ⟨.dmabuf, dev, 0, 1⟩, .exporting handle (.dmaBufFd r.nextHandle))
  | .dmaBufExport dev, .fail e => some (r, dev.unpin (.fdput handle (.error e)))
  | .dmaBufFd buf, .go =>
      let value := r.handles buf
      some (r.setHandle buf { value with fds := value.fds + 1, busy := value.busy - 1 },
        .exporting handle (.putUser buf))
  | .dmaBufFd buf, .fail e => some (dropBusy r buf (.fdput handle (.error e)))
  | .putUser buf, .go => some (r, .fdput handle (.handle buf))
  | .putUser buf, .fail _ => some (r, .exporting handle (.closeFd buf))
  | .closeFd buf, .go =>
      if 0 < (r.handles buf).fds then some (dropFd r buf (.fdput handle (.error .EFAULT)))
      else some (r, .fdput handle (.error .EFAULT))
  | _, _ => none

-- The loop of kbuf_ctl_unregister
def unloadStep (r : Registry) : DynChoice → Option (Registry × DynLocal)
  | .go =>
      match r.list with
      | [] => some ({ r with unloaded := true }, .done .ok)
      | ptr :: rest => some ({ r with list := rest }, .teardown ptr .deviceDestroy .unload)
  | _ => none

def DynRequest.enter : DynRequest → DynLocal
  | .create => .create .ida
  | .destroy id => .getUser id
  | .openMinor minor => .opening (.lookup minor)
  | .dup handle => .dup handle
  | .close handle => .close handle
  | .use handle => .fdget handle .use
  | .iocResize handle => .fdget handle .iocResize
  | .iocExport handle => .fdget handle .iocExport
  | .unload => .unload

-- Nobody enters the module once its unloading has begun.
def dynEnter (r : Registry) : DynChoice → Option (Registry × DynLocal)
  | .start .unload => if r.loaded then some ({ r with loaded := false }, .unload) else none
  | .start request => if r.loaded then some (r, request.enter) else none
  | _ => none

-- The life of the dynamic devices, as one process drives it.
def dynDriver : Program Registry DynLocal DynChoice := fun _ choice here r =>
  match here with
  | .idle | .done _ => dynEnter r choice
  | .create pc => createStep r pc choice
  | .getUser id =>
      match choice with
      | .go => some (r, .unlink id false)
      | .fail _ => some (r, .done (.error .EFAULT))
      | _ => none
  | .unlink id rollback => unlinkStep r id rollback choice
  | .teardown ptr pc cont => teardownStep r ptr cont pc choice
  | .put ptr cont =>
      match choice with
      | .go => some (krefPutStep r ptr cont)
      | _ => none
  | .release ptr cont => releaseStep r ptr cont choice
  | .opening pc => openStep r pc choice
  | .dup handle => dupStep r handle choice
  | .close handle => closeStep r handle choice
  | .closing dev cont =>
      match choice with
      | .go => some (r, dev.unpin cont)
      | _ => none
  | .fdget handle call => fdgetStep r handle call choice
  | .use handle _ =>
      match choice with
      | .go => some (r, .fdput handle .ok)
      | _ => none
  | .resizing handle _ => resizingStep r handle choice
  | .exporting handle pc => exportStep r handle pc choice
  | .fdput handle ret =>
      match choice with
      | .go => some (dropBusy r handle (.ret ret))
      | _ => none
  | .unload => unloadStep r choice

abbrev DynSystem := State Registry DynLocal

-- The module just loaded.
def dynBoot (ndevices : Nat) : DynSystem where
  shared :=
    { ndevices := ndevices
      devs := fun _ => .vacant
      nextDev := 0
      list := []
      ida := []
      handles := fun _ => .none
      nextHandle := 0
      loaded := true
      unloaded := false }
  locals := fun _ => .idle

-- The steps of a CREATE up to the one that lists the device, and the whole of it.
def beginDyn (p off : Nat) : List (Act DynChoice) :=
  ⟨p, .start .create⟩ :: ⟨p, .id off⟩ :: List.replicate 6 ⟨p, .go⟩

def createDyn (p off : Nat) : List (Act DynChoice) := beginDyn p off ++ [⟨p, .go⟩, ⟨p, .go⟩]

end Steps

end Kbuf
