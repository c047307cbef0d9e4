import Kbuf.Dyn.Moves
import Kbuf.Lib.Tally

namespace Kbuf

open Interleaving Tally

section Weights

def DevPtr.counts (ptr : Nat) (dev : DevPtr) : Nat := if dev = .dyn ptr then 1 else 0

-- A struct file holds one reference for as long as it is in use.
def Handle.binds (ptr : Nat) (handle : Handle) : Nat :=
  if handle.live then handle.dev.counts ptr else 0

-- The references that a call in flight holds itself.
def DynLocal.holds (ptr : Nat) : DynLocal → Nat
  | .put other _ => (DevPtr.dyn other).counts ptr
  | .opening (.opened dev) | .closing dev _ | .exporting _ (.dmaBufExport dev) => dev.counts ptr
  | _ => 0

def CreatePc.owned : CreatePc → Option Nat
  | .slots ptr | .mmap ptr | .cdevAlloc ptr | .cdevAdd ptr | .deviceCreate ptr | .listAdd ptr
  | .errCdev ptr _ | .errMmap ptr _ | .errSlots ptr _ | .errFree ptr _ => some ptr
  | .ida | .kzalloc _ | .putUser _ | .errIda .. => none

-- The call that is to list the device, to free it or to drop the registered reference.
def DynLocal.token (ptr : Nat) : DynLocal → Nat
  | .create pc => if pc.owned = some ptr then 1 else 0
  | .teardown other _ _ => (DevPtr.dyn other).counts ptr
  | _ => 0

-- The call that made the device, for as long as nobody else can find it.
def DynLocal.creating (ptr : Nat) : DynLocal → Nat
  | .create pc => if pc.owned = some ptr then 1 else 0
  | _ => 0

def DynLocal.releasing (ptr : Nat) : DynLocal → Nat
  | .release other _ => (DevPtr.dyn other).counts ptr
  | _ => 0

-- What a call has yet to do for the device: list it or give it up, release it,
-- finish making it.
def DynLocal.duties (here : DynLocal) (ptr : Nat) : Nat × Nat × Nat :=
  (here.token ptr, here.releasing ptr, here.creating ptr)

def Cont.uses (handle : Nat) : Cont → Nat
  | .fdput other _ => if other = handle then 1 else 0
  | .ret _ | .unload => 0

def ExportPc.uses (handle : Nat) : ExportPc → Nat
  | .dmaBufFd buf => if buf = handle then 1 else 0
  | _ => 0

-- How often a call in flight is counted in the `busy` field of a struct file.
def DynLocal.uses (handle : Nat) : DynLocal → Nat
  | .teardown _ _ cont | .put _ cont | .release _ cont | .closing _ cont => cont.uses handle
  | .use other _ | .resizing other _ | .fdput other _ => if other = handle then 1 else 0
  | .exporting other pc => (if other = handle then 1 else 0) + pc.uses handle
  | _ => 0

def Registry.bound (r : Registry) (ptr : Nat) : Nat :=
  tally (Handle.binds ptr) r.handles r.nextHandle

@[simp] theorem counts_self (ptr : Nat) : (DevPtr.dyn ptr).counts ptr = 1 := by
  simp [DevPtr.counts]

theorem counts_of_ne {ptr other : Nat} (h : other ≠ ptr) : (DevPtr.dyn other).counts ptr = 0 := by
  simp [DevPtr.counts, h]

variable (ptr handle : Nat) (dev : DevPtr) (cont : Cont)

@[simp] theorem holds_resume : cont.resume.holds ptr = 0 := by cases cont <;> rfl

@[simp] theorem duties_resume : cont.resume.duties ptr = (0, 0, 0) := by cases cont <;> rfl

@[simp] theorem uses_resume : cont.resume.uses handle = cont.uses handle := by cases cont <;> rfl

@[simp] theorem holds_unpin : (dev.unpin cont).holds ptr = dev.counts ptr := by
  cases dev with
  | static => exact holds_resume ptr cont
  | dyn => rfl

@[simp] theorem duties_unpin : (dev.unpin cont).duties ptr = (0, 0, 0) :=
  unpin_cases dev cont (duties_resume ptr cont) fun _ => rfl

@[simp] theorem uses_unpin : (dev.unpin cont).uses handle = cont.uses handle :=
  unpin_cases dev cont (uses_resume handle cont) fun _ => rfl

variable (value : Handle)

@[simp] theorem holds_dispose : (value.dispose cont).holds ptr = value.dev.counts ptr :=
  dispose_cases value cont rfl (holds_unpin ptr value.dev cont)

@[simp] theorem duties_dispose : (value.dispose cont).duties ptr = (0, 0, 0) :=
  dispose_cases value cont rfl (duties_unpin ptr value.dev cont)

@[simp] theorem uses_dispose : (value.dispose cont).uses handle = cont.uses handle :=
  dispose_cases value cont rfl (uses_unpin handle value.dev cont)

end Weights

section Registry

variable (r : Registry) (ptr : Nat)

@[simp] theorem setDev_self (dev : DynDev) : (r.setDev ptr dev).devs ptr = dev := by
  simp [Registry.setDev]

theorem setDev_of_ne {ptr other : Nat} (dev : DynDev) (h : ptr ≠ other) :
    (r.setDev other dev).devs ptr = r.devs ptr := by
  simp [Registry.setDev, h]

theorem setDev_eq_self : r.setDev ptr (r.devs ptr) = r := by
  rw [Registry.setDev, Function.update_eq_self]

@[simp] theorem setHandle_self (handle : Nat) (value : Handle) :
    (r.setHandle handle value).handles handle = value := by
  simp [Registry.setHandle]

theorem setHandle_of_ne {handle other : Nat} (value : Handle) (h : handle ≠ other) :
    (r.setHandle other value).handles handle = r.handles handle := by
  simp [Registry.setHandle, h]

theorem bound_setHandle {handle : Nat} (h : handle < r.nextHandle) (value : Handle) :
    (r.setHandle handle value).bound ptr + (r.handles handle).binds ptr =
      r.bound ptr + value.binds ptr :=
  tally_update (Handle.binds ptr) r.handles h value

theorem bound_addHandle (value : Handle) :
    (r.addHandle value).bound ptr = r.bound ptr + value.binds ptr :=
  tally_push (Handle.binds ptr) r.handles r.nextHandle value

variable {r ptr}

theorem find_mem {id : Int} (h : r.find id = some ptr) : ptr ∈ r.list :=
  List.mem_of_find?_eq_some h

theorem erase_head {rest : List Nat} (h : r.list = ptr :: rest) :
    rest = r.list.erase ptr ∧ ptr ∈ r.list := by
  rw [h, List.erase_cons_head]
  exact ⟨rfl, List.mem_cons_self⟩

end Registry

section Balance

-- One device before and after a step: every reference has changed hands, been
-- taken or been dropped, and so have the duty to drop the registered reference
-- and the duty to run kbuf_dev_release. A new reference is taken through the list
-- or through an open file, and neither leads to a device under construction.
structure Balanced (ptr : Nat) (r : Registry) (here : DynLocal) (r' : Registry)
    (next : DynLocal) : Prop where
  refs : (r'.devs ptr).ref + (r'.devs ptr).dropped + r.bound ptr + here.holds ptr =
    (r.devs ptr).ref + (r.devs ptr).dropped + r'.bound ptr + next.holds ptr
  tokens : r'.list.count ptr + next.token ptr + (r'.devs ptr).dropped + (r'.devs ptr).aborted =
    r.list.count ptr + here.token ptr + (r.devs ptr).dropped + (r.devs ptr).aborted
  releases : (r'.devs ptr).released + next.releasing ptr + min 1 (r'.devs ptr).ref =
    (r.devs ptr).released + here.releasing ptr + min 1 (r.devs ptr).ref
  hidden : next.creating ptr + (r'.devs ptr).aborted ≤ here.creating ptr + (r.devs ptr).aborted ∨
    r.devs ptr = .vacant
  grows : (r'.devs ptr).ref + (r'.devs ptr).dropped ≤ (r.devs ptr).ref + (r.devs ptr).dropped ∨
    ptr ∈ r.list ∨ 0 < r.bound ptr

-- Two states of a device that the books do not tell apart.
structure SameCounts (dev' dev : DynDev) : Prop where
  ref : dev'.ref = dev.ref
  dropped : dev'.dropped = dev.dropped
  aborted : dev'.aborted = dev.aborted
  released : dev'.released = dev.released

theorem SameCounts.refl (dev : DynDev) : SameCounts dev dev := ⟨rfl, rfl, rfl, rfl⟩

variable {r r' : Registry} {here next : DynLocal} {ptr other : Nat}

theorem sameCounts_setDev {dev : DynDev} (h : SameCounts dev (r.devs other)) (ptr : Nat) :
    SameCounts ((r.setDev other dev).devs ptr) (r.devs ptr) := by
  by_cases hp : ptr = other
  · subst hp
    rw [setDev_self]
    exact h
  · rw [setDev_of_ne r dev hp]
    exact .refl _

theorem duties_inj {a b c : Nat} (h : here.duties ptr = (a, b, c)) :
    here.token ptr = a ∧ here.releasing ptr = b ∧ here.creating ptr = c := by
  simpa only [DynLocal.duties, Prod.mk.injEq] using h

theorem Balanced.of_duties {a b c a' b' c' : Nat} (hhere : here.duties ptr = (a, b, c))
    (hnext : next.duties ptr = (a', b', c'))
    (hrefs : (r'.devs ptr).ref + (r'.devs ptr).dropped + r.bound ptr + here.holds ptr =
      (r.devs ptr).ref + (r.devs ptr).dropped + r'.bound ptr + next.holds ptr)
    (htokens : r'.list.count ptr + a' + (r'.devs ptr).dropped + (r'.devs ptr).aborted =
      r.list.count ptr + a + (r.devs ptr).dropped + (r.devs ptr).aborted)
    (hreleases : (r'.devs ptr).released + b' + min 1 (r'.devs ptr).ref =
      (r.devs ptr).released + b + min 1 (r.devs ptr).ref)
    (hhidden : c' + (r'.devs ptr).aborted ≤ c + (r.devs ptr).aborted ∨ r.devs ptr = .vacant)
    (hgrows : (r'.devs ptr).ref + (r'.devs ptr).dropped ≤ (r.devs ptr).ref + (r.devs ptr).dropped ∨
      ptr ∈ r.list ∨ 0 < r.bound ptr) : Balanced ptr r here r' next := by
  obtain ⟨rfl, rfl, rfl⟩ := duties_inj hhere
  obtain ⟨rfl, rfl, rfl⟩ := duties_inj hnext
  exact ⟨hrefs, htokens, hreleases, hhidden, hgrows⟩

-- A step that leaves what the books know of the device alone.
theorem Balanced.quiet (hdev : SameCounts (r'.devs ptr) (r.devs ptr))
    (hcount : r'.list.count ptr = r.list.count ptr)
    (hholds : r.bound ptr + here.holds ptr = r'.bound ptr + next.holds ptr)
    (hduties : next.duties ptr = here.duties ptr) : Balanced ptr r here r' next := by
  obtain ⟨href, hdropped, haborted, hreleased⟩ := hdev
  refine .of_duties rfl hduties ?_ ?_ ?_ (Or.inl ?_) (Or.inl ?_)
  · omega
  · omega
  · rw [href, hreleased]
  · rw [haborted]
  · omega

end Balance

end Kbuf
