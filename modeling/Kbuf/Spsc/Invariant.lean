import Kbuf.Machine.Contents
import Kbuf.Spsc.Ring

namespace Kbuf

open Interleaving FreeRunning

section Definitions

-- Who writes, who reads, and who may resize.
structure Roles where
  producer : Nat
  consumer : Nat
  mayResize : Nat → Prop

def Roles.allows (roles : Roles) (p : Nat) : Request → Prop
  | .read .. => p = roles.consumer
  | .write .. => p = roles.producer
  | .resize _ => roles.mayResize p
  | .smode _ => False
  | .reset | .getstats _ | .poll => True

structure ResizeArg.Accepted (rq : ResizeArg) : Prop extends rq.Valid where
  power : rq.numBuffers.isPowerOfTwo

-- A resize holds a fresh array of the size it asked for.
def ResizerOk (w : World) (rq : ResizeArg) : ResizePc → Prop
  | .alloc => rq.Accepted
  | .lock ptr | .swap ptr =>
      rq.Accepted ∧ w.array ptr = List.replicate rq.numBuffers ⟨List.replicate rq.bufferSize 0, 0⟩
  | _ => True

def Ret.Whole : Ret → Prop
  | .bytes (.ok len) out => len = out.length
  | _ => True

-- What each process knows, by its role.
def Local.SpscOk (roles : Roles) (w : World) (p : Nat) : Local → Prop
  | .readEntry .. => p = roles.consumer
  | .readSpsc _ u pc => p = roles.consumer ∧ ConsumerOk w.dev.ring w.slotsPtr u pc
  | .writeEntry .. => p = roles.producer
  | .writeSpsc _ u pc => p = roles.producer ∧ ProducerOk w.dev.ring w.slotsPtr u pc
  | .resize rq pc => roles.mayResize p ∧ ResizerOk w rq pc
  | .readBlocking .. | .writeBlocking .. | .smode .. => False
  | .done ret => ret.Whole
  | .idle | .reset _ | .getstats .. | .poll _ => True

structure RingOk (w : World) : Prop where
  mode : w.dev.mode = .SPSC
  geometry : Geometry w.dev.ring
  ring : SpscRing w.dev.ring
  delivered : w.Delivered

end Definitions

section Ring

variable {w : World}

theorem queue_eq_ring (h : w.dev.mode = .SPSC) : queue w.dev = spscQueue w.dev.ring := by
  simp only [queue, h]
  rfl

theorem load_ring (w : World) (index : Nat) :
    w.load ⟨w.slotsPtr, index⟩ = w.dev.ring.slot index := by
  simp [World.load, Dev.slot, Dev.ring]

theorem store_ring (w : World) (index : Nat) (slot : Slot) :
    (w.store ⟨w.slotsPtr, index⟩ slot).dev.ring = w.dev.ring.setSlot index slot := by
  simp [World.store, World.setArray, Dev.setSlot, Dev.ring]

theorem array_store_ne (w : World) (index : Nat) (slot : Slot) {ptr : Nat}
    (h : ptr ≠ w.slotsPtr) : (w.store ⟨w.slotsPtr, index⟩ slot).array ptr = w.array ptr := by
  rw [array_store]
  exact if_neg h

theorem ringOk_of_wellformed (hdev : Wellformed w.dev) (hmode : w.dev.mode = .SPSC)
    (hlog : w.Delivered) : RingOk w where
  mode := hmode
  geometry := hdev.geometry.of_eq rfl rfl rfl
  ring := by
    have hr : SpscRing w.dev := by simpa only [Discipline, hmode] using hdev.discipline
    exact ⟨hr.power, hr.depth_le⟩
  delivered := hlog

end Ring

section Effects

variable {roles : Roles} {me : Nat} {w w' : World} {here next : Local}

-- What a step does to the ring, and who may do it.
inductive RingEffect (roles : Roles) (me : Nat) (w : World) (here : Local) (w' : World) : Prop
  | quiet (hring : w'.dev.ring = w.dev.ring) (hptr : w'.slotsPtr = w.slotsPtr)
      (hlog : w'.log = w.log)
  | fill (slot : Slot) (hme : me = roles.producer)
      (hroom : depth w.dev.ring.prodIdx w.dev.ring.consIdx < w.dev.ring.numBuffers)
      (hdata : slot.data.length = w.dev.ring.bufferSize) (hlen : slot.len ≤ w.dev.ring.bufferSize)
      (hring : w'.dev.ring = w.dev.ring.setSlot (w.dev.ring.masked w.dev.ring.prodIdx) slot)
      (hptr : w'.slotsPtr = w.slotsPtr) (hlog : w'.log = w.log)
  | publish (hme : me = roles.producer)
      (hroom : depth w.dev.ring.prodIdx w.dev.ring.consIdx < w.dev.ring.numBuffers)
      (hring : w'.dev.ring = { w.dev.ring with prodIdx := w.dev.ring.prodIdx + 1 })
      (hptr : w'.slotsPtr = w.slotsPtr)
      (hlog : w'.log = w.log ++ [.produced me w.dev.ring.producerSlot.message])
  | release (count : Nat) (hme : me = roles.consumer)
      (hready : 0 < depth w.dev.ring.prodIdx w.dev.ring.consIdx)
      (hring : w'.dev.ring = { w.dev.ring with consIdx := w.dev.ring.consIdx + 1 })
      (hptr : w'.slotsPtr = w.slotsPtr)
      (hlog : w'.log = w.log ++ [.consumed me count (w.dev.ring.consumerSlot.message.take count)])
  | swap (rq : ResizeArg) (ptr : Nat) (hhere : here = .resize rq (.swap ptr))
      (hempty : occupancy w.dev = 0)
      (hw : w' = w.install (w.dev.resized rq (w.array ptr)) ptr)

structure SpscStep (roles : Roles) (me : Nat) (w : World) (here : Local) (w' : World)
    (next : Local) : Prop where
  effect : RingEffect roles me w here w'
  arrays : ∀ ptr, ptr ≠ w.slotsPtr → ptr < w.nextPtr → w'.array ptr = w.array ptr
  next : next.SpscOk roles w' me

theorem SpscStep.quiet (hring : w'.dev.ring = w.dev.ring) (hptr : w'.slotsPtr = w.slotsPtr)
    (hheap : w'.heap = w.heap) (hlog : w'.log = w.log) (hnext : next.SpscOk roles w' me) :
    SpscStep roles me w here w' next where
  effect := .quiet hring hptr hlog
  arrays ptr hne _ := by
    unfold World.array
    rw [hptr, hheap, if_neg hne, if_neg hne]
  next := hnext

theorem SpscStep.fill {index : Nat} (slot : Slot) (hme : me = roles.producer)
    (hindex : index = w.dev.ring.masked w.dev.ring.prodIdx)
    (hroom : depth w.dev.ring.prodIdx w.dev.ring.consIdx < w.dev.ring.numBuffers)
    (hdata : slot.data.length = w.dev.ring.bufferSize) (hlen : slot.len ≤ w.dev.ring.bufferSize)
    (hnext : next.SpscOk roles (w.store ⟨w.slotsPtr, index⟩ slot) me) :
    SpscStep roles me w here (w.store ⟨w.slotsPtr, index⟩ slot) next where
  effect := by
    refine .fill slot hme hroom hdata hlen ?_ rfl rfl
    rw [store_ring, hindex]
  arrays ptr hne _ := array_store_ne w index slot hne
  next := hnext

end Effects

end Kbuf
