import Kbuf.Dyn.Invariant

namespace Kbuf

open Interleaving Tally

section Definitions

-- The instance still has the id that ida_alloc_max gave it.
def DynDev.keepsMinor (dev : DynDev) : Prop := dev.released = 0 ∧ dev.aborted = 0

instance (dev : DynDev) : Decidable dev.keepsMinor :=
  inferInstanceAs (Decidable (dev.released = 0 ∧ dev.aborted = 0))

def DynDev.keeps (off : Nat) (dev : DynDev) : Nat :=
  if dev.minorOff = off ∧ dev.keepsMinor then 1 else 0

-- What a call has in hand for an instance that is not listed: its id only, the
-- instance with its cdev, or the instance with its cdev and its device node.
inductive Registered where
  | nothing
  | id (off : Nat)
  | cdev (ptr : Nat)
  | node (ptr : Nat)
  deriving DecidableEq

def DynLocal.registered : DynLocal → Registered
  | .create (.kzalloc off) | .create (.errIda off _) => .id off
  | .create (.deviceCreate ptr) | .create (.errCdev ptr _) | .teardown ptr .cdevDel _ => .cdev ptr
  | .create (.listAdd ptr) | .teardown ptr .deviceDestroy _ => .node ptr
  | _ => .nothing

def Registered.keeps (off : Nat) : Registered → Nat
  | .id other => if other = off then 1 else 0
  | .nothing | .cdev _ | .node _ => 0

def Registered.cdevs (ptr : Nat) : Registered → Nat
  | .cdev other | .node other => (DevPtr.dyn other).counts ptr
  | .nothing | .id _ => 0

def Registered.nodes (ptr : Nat) : Registered → Nat
  | .node other => (DevPtr.dyn other).counts ptr
  | .nothing | .id _ | .cdev _ => 0

def Registry.keeping (r : Registry) (off : Nat) : Nat := tally (DynDev.keeps off) r.devs r.nextDev

-- What a process about to take a step knows of the device it is working on.
structure MinorReady (r : Registry) (here : DynLocal) : Prop where
  vacant : ∀ ptr, r.nextDev ≤ ptr → r.devs ptr = .vacant
  kept : ∀ ptr, 0 < here.token ptr + here.releasing ptr → (r.devs ptr).keepsMinor
  cdev : ∀ ptr, 0 < here.token ptr → (r.devs ptr).cdev.toNat = here.registered.cdevs ptr
  node : ∀ ptr, 0 < here.token ptr → (r.devs ptr).node.toNat = here.registered.nodes ptr
  held : ∀ off, here.registered = .id off → off ∈ r.ida
  taken : ∀ ptr, (r.devs ptr).keepsMinor → (r.devs ptr).minorOff ∈ r.ida

-- Ids, cdevs and device nodes before and after a step: each has been taken,
-- given back or handed on.
structure MinorStep (r : Registry) (here : DynLocal) (r' : Registry) (next : DynLocal) : Prop where
  ids : ∀ off, r'.keeping off + next.registered.keeps off + r.ida.count off =
    r.keeping off + here.registered.keeps off + r'.ida.count off
  cdevs : ∀ ptr, (r'.devs ptr).cdev.toNat + r.list.count ptr + here.registered.cdevs ptr =
    (r.devs ptr).cdev.toNat + r'.list.count ptr + next.registered.cdevs ptr
  nodes : ∀ ptr, (r'.devs ptr).node.toNat + r.list.count ptr + here.registered.nodes ptr =
    (r.devs ptr).node.toNat + r'.list.count ptr + next.registered.nodes ptr
  fresh : ∀ off, r'.ida.count off ≤ r.ida.count off ∨
    (off < KBUF_DYN_MAX ∧ r.ida.count off = 0 ∧ r'.ida.count off = 1)
  minorOff : ∀ ptr, ptr < r.nextDev → (r'.devs ptr).minorOff = (r.devs ptr).minorOff
  nextDev : r.nextDev ≤ r'.nextDev
  ndevices : r'.ndevices = r.ndevices

-- Two states of a device between which its id, cdev and node have not changed.
structure SameMinor (dev' dev : DynDev) : Prop where
  minorOff : dev'.minorOff = dev.minorOff
  released : dev'.released = dev.released
  aborted : dev'.aborted = dev.aborted
  cdev : dev'.cdev = dev.cdev
  node : dev'.node = dev.node

end Definitions

section Weights

variable {ptr other off : Nat}

@[simp] theorem registered_resume (cont : Cont) : cont.resume.registered = .nothing := by
  cases cont <;> rfl

@[simp] theorem registered_unpin (dev : DevPtr) (cont : Cont) :
    (dev.unpin cont).registered = .nothing :=
  unpin_cases dev cont (registered_resume cont) fun _ => rfl

@[simp] theorem registered_dispose (value : Handle) (cont : Cont) :
    (value.dispose cont).registered = .nothing :=
  dispose_cases value cont rfl (registered_unpin value.dev cont)

theorem nodes_le_cdevs (ptr : Nat) (reg : Registered) : reg.nodes ptr ≤ reg.cdevs ptr := by
  cases reg with
  | node => exact Nat.le_refl _
  | nothing | id | cdev => exact Nat.zero_le _

-- Only the call that is to list or to tear down the device has its cdev in hand.
theorem cdevs_le_token (ptr : Nat) (here : DynLocal) :
    here.registered.cdevs ptr ≤ here.token ptr := by
  cases here with
  | create pc =>
      cases pc with
      | deviceCreate other | listAdd other | errCdev other =>
          simp [DynLocal.registered, Registered.cdevs, DynLocal.token, CreatePc.owned,
            DevPtr.counts]
      | _ => exact Nat.zero_le _
  | teardown other pc cont =>
      cases pc with
      | deviceDestroy | cdevDel => exact Nat.le_refl _
      | put => exact Nat.zero_le _
  | _ => exact Nat.zero_le _

theorem keeps_of_keepsMinor {dev : DynDev} (h : dev.keepsMinor) : dev.keeps dev.minorOff = 1 :=
  if_pos ⟨rfl, h⟩

theorem SameMinor.keeps {dev' dev : DynDev} (h : SameMinor dev' dev) (off : Nat) :
    dev'.keeps off = dev.keeps off := by
  have hiff : (dev'.minorOff = off ∧ dev'.keepsMinor) ↔ (dev.minorOff = off ∧ dev.keepsMinor) := by
    rw [DynDev.keepsMinor, DynDev.keepsMinor, h.minorOff, h.released, h.aborted]
  exact if_congr hiff rfl rfl

theorem keeping_congr {r r' : Registry} (hnext : r'.nextDev = r.nextDev)
    (h : ∀ ptr, (r'.devs ptr).keeps off = (r.devs ptr).keeps off) :
    r'.keeping off = r.keeping off := by
  rw [Registry.keeping, hnext]
  exact Finset.sum_congr rfl fun ptr _ => h ptr

theorem SameMinor.refl (dev : DynDev) : SameMinor dev dev := ⟨rfl, rfl, rfl, rfl, rfl⟩

theorem sameMinor_setDev {r : Registry} {dev : DynDev} (h : SameMinor dev (r.devs other))
    (ptr : Nat) : SameMinor ((r.setDev other dev).devs ptr) (r.devs ptr) := by
  by_cases hp : ptr = other
  · subst hp
    rw [setDev_self]
    exact h
  · rw [setDev_of_ne r dev hp]
    exact .refl _

end Weights

section Steps

variable {r r' : Registry} {here next : DynLocal} {ptr : Nat}

theorem MinorReady.lt_of_kept (h : MinorReady r here) (hkeeps : (r.devs ptr).keepsMinor) :
    ptr < r.nextDev := by
  by_contra hlt
  rw [h.vacant ptr (Nat.le_of_not_lt hlt)] at hkeeps
  exact absurd hkeeps.1 Nat.one_ne_zero

-- A step that neither takes an id nor registers anything.
theorem MinorStep.quiet (hdevs : ∀ ptr, SameMinor (r'.devs ptr) (r.devs ptr))
    (hlist : r'.list = r.list) (hida : r'.ida = r.ida) (hnext : r'.nextDev = r.nextDev)
    (hn : r'.ndevices = r.ndevices) (hreg : next.registered = here.registered) :
    MinorStep r here r' next where
  ids off := by
    rw [keeping_congr hnext fun ptr => (hdevs ptr).keeps off, hreg, hida]
  cdevs ptr := by rw [(hdevs ptr).cdev, hlist, hreg]
  nodes ptr := by rw [(hdevs ptr).node, hlist, hreg]
  fresh off := Or.inl (by rw [hida])
  minorOff ptr _ := (hdevs ptr).minorOff
  nextDev := by rw [hnext]
  ndevices := hn

theorem MinorStep.same (hreg : next.registered = here.registered) : MinorStep r here r next :=
  .quiet (fun _ => .refl _) rfl rfl rfl rfl hreg

theorem MinorStep.setDev {dev : DynDev} (hdev : SameMinor dev (r.devs ptr))
    (hreg : next.registered = here.registered) : MinorStep r here (r.setDev ptr dev) next :=
  .quiet (sameMinor_setDev hdev) rfl rfl rfl rfl hreg

-- A call has nothing in hand, or the one device with what is registered for it.
def Registered.about (ptr : Nat) (reg : Registered) : Prop :=
  reg = .nothing ∨ reg = .cdev ptr ∨ reg = .node ptr

theorem Registered.about.keeps {reg : Registered} (h : reg.about ptr) (off : Nat) :
    reg.keeps off = 0 := by
  rcases h with rfl | rfl | rfl <;> rfl

theorem Registered.about.cdevs {reg : Registered} (h : reg.about ptr) {other : Nat}
    (hne : other ≠ ptr) : reg.cdevs other = 0 := by
  rcases h with rfl | rfl | rfl
  · rfl
  · exact counts_of_ne (Ne.symm hne)
  · exact counts_of_ne (Ne.symm hne)

theorem Registered.about.nodes {reg : Registered} (h : reg.about ptr) {other : Nat}
    (hne : other ≠ ptr) : reg.nodes other = 0 :=
  Nat.le_zero.mp ((nodes_le_cdevs other reg).trans (Nat.le_of_eq (h.cdevs hne)))

-- The call that has the device in hand registers or unregisters something for it.
theorem MinorStep.flags (hready : MinorReady r here) {dev : DynDev} (htoken : 0 < here.token ptr)
    (hsame : SameMinor { dev with cdev := (r.devs ptr).cdev, node := (r.devs ptr).node }
      (r.devs ptr))
    (hcdev : dev.cdev.toNat = next.registered.cdevs ptr)
    (hnode : dev.node.toNat = next.registered.nodes ptr) (hhere : here.registered.about ptr)
    (hnext : next.registered.about ptr) : MinorStep r here (r.setDev ptr dev) next where
  ids off := by
    have hkeeping : (r.setDev ptr dev).keeping off = r.keeping off := by
      refine keeping_congr rfl fun other => ?_
      by_cases ho : other = ptr
      · subst ho
        rw [setDev_self]
        exact hsame.keeps off
      · rw [setDev_of_ne r dev ho]
    rw [hkeeping, hhere.keeps, hnext.keeps]
    rfl
  cdevs other := by
    by_cases ho : other = ptr
    · subst ho
      rw [setDev_self, hcdev, hready.cdev other htoken]
      dsimp only [Registry.setDev]
      omega
    · rw [setDev_of_ne r dev ho, hhere.cdevs ho, hnext.cdevs ho]
      rfl
  nodes other := by
    by_cases ho : other = ptr
    · subst ho
      rw [setDev_self, hnode, hready.node other htoken]
      dsimp only [Registry.setDev]
      omega
    · rw [setDev_of_ne r dev ho, hhere.nodes ho, hnext.nodes ho]
      rfl
  fresh off := Or.inl (Nat.le_refl _)
  minorOff other _ := by
    by_cases ho : other = ptr
    · subst ho
      rw [setDev_self]
      exact hsame.minorOff
    · rw [setDev_of_ne r dev ho]
  nextDev := Nat.le_refl _
  ndevices := rfl

-- A registered device is listed, or taken off the list.
theorem MinorStep.listed {list : List Nat}
    (hhere : ∀ ptr, here.registered.cdevs ptr = here.registered.nodes ptr)
    (hnext : ∀ ptr, next.registered.cdevs ptr = next.registered.nodes ptr)
    (hkeeps : ∀ off, next.registered.keeps off = here.registered.keeps off)
    (hcount : ∀ ptr, list.count ptr + next.registered.nodes ptr =
      r.list.count ptr + here.registered.nodes ptr) :
    MinorStep r here { r with list := list } next where
  ids off := by
    rw [hkeeps]
    rfl
  cdevs ptr := by
    have hsum := hcount ptr
    rw [hhere, hnext]
    dsimp only
    omega
  nodes ptr := by
    have hsum := hcount ptr
    dsimp only
    omega
  fresh off := Or.inl (Nat.le_refl _)
  minorOff _ _ := rfl
  nextDev := Nat.le_refl _
  ndevices := rfl

theorem count_erase_add (list : List Nat) (off other : Nat) (h : off ∈ list) :
    (list.erase off).count other + (if off = other then 1 else 0) = list.count other := by
  have hpos := List.count_pos_iff.mpr h
  by_cases ho : off = other
  · subst ho
    rw [List.count_erase_self, if_pos rfl]
    omega
  · rw [List.count_erase_of_ne (Ne.symm ho), if_neg ho, Nat.add_zero]

theorem count_cons_add (list : List Nat) (off other : Nat) :
    (off :: list).count other = list.count other + if off = other then 1 else 0 := by
  simp [List.count_cons]

theorem minorStep_erase {cont : Cont} (hmem : ptr ∈ r.list) (hhere : here.registered = .nothing) :
    MinorStep r here { r with list := r.list.erase ptr } (.teardown ptr .deviceDestroy cont) := by
  refine .listed (fun _ => ?_) (fun _ => rfl) (fun _ => ?_) fun other => ?_
  · rw [hhere]
    rfl
  · rw [hhere]
    rfl
  · have herase := count_erase_add r.list ptr other hmem
    rw [hhere, ← herase]
    simp [DynLocal.registered, Registered.nodes, DevPtr.counts]

theorem minorStep_listAdd :
    MinorStep r (.create (.listAdd ptr)) { r with list := r.list ++ [ptr] }
      (.create (.putUser (r.devs ptr).minorOff)) := by
  refine .listed (fun _ => rfl) (fun _ => rfl) (fun _ => rfl) fun other => ?_
  rw [List.count_append]
  simp [DynLocal.registered, Registered.nodes, DevPtr.counts, List.count_singleton]

end Steps

end Kbuf
