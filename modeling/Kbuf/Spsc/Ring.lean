import Kbuf.Machine.Ownership
import Kbuf.Machine.History

namespace Kbuf

open Circular FreeRunning

section Definitions

-- The device without what the lock-free path never decides on.
def Dev.ring (dev : Dev) : Dev :=
  { dev with
    readPos := 0
    writePos := 0
    count := 0
    peakCount := 0
    bytesProduced := 0
    bytesConsumed := 0
    msgsProduced := 0
    msgsConsumed := 0
    readSleeps := 0
    writeSleeps := 0 }

def Dev.producerSlot (ring : Dev) : Slot := ring.slot (ring.masked ring.prodIdx)

def Dev.consumerSlot (ring : Dev) : Slot := ring.slot (ring.masked ring.consIdx)

-- The producer has picked the first free slot of the current array.
structure Filling (ring : Dev) (array : Nat) (u : UserWrite) (f : Producing) : Prop where
  prod : f.prod = ring.prodIdx
  slot : f.slot = ⟨array, ring.masked ring.prodIdx⟩
  room : depth ring.prodIdx ring.consIdx < ring.numBuffers
  fits : u.count ≤ ring.bufferSize

-- The consumer has picked the oldest published slot of the current array.
structure Draining (ring : Dev) (array : Nat) (cons : BitVec 32) (slot : SlotPtr) : Prop where
  cons : cons = ring.consIdx
  slot : slot = ⟨array, ring.masked ring.consIdx⟩
  ready : 0 < depth ring.prodIdx ring.consIdx

-- What the producer knows at each point. Its view of `cons_idx` may be old.
def ProducerOk (ring : Dev) (array : Nat) (u : UserWrite) : SpscWritePc → Prop
  | .full => u.count ≤ ring.bufferSize
  | .fullCons prod =>
      u.count ≤ ring.bufferSize ∧
        (prod = ring.prodIdx ∨ depth ring.prodIdx ring.consIdx < ring.numBuffers)
  | .sleep => u.count ≤ ring.bufferSize
  | .wait _ => u.count ≤ ring.bufferSize
  | .produce => u.count ≤ ring.bufferSize ∧ depth ring.prodIdx ring.consIdx < ring.numBuffers
  | .copy f i =>
      Filling ring array u f ∧ i ≤ u.count ∧
        ∀ j, j < i → ring.producerSlot.data[j]? = some (u.ubuf.getD j 0)
  | .setLen f =>
      Filling ring array u f ∧ u.count ≤ u.ubuf.length ∧
        ring.producerSlot.data.take u.count = u.ubuf.take u.count
  | .publish f => Filling ring array u f ∧ ring.producerSlot.message = u.ubuf.take u.count
  | _ => True

-- What the consumer knows at each point. Its view of `prod_idx` may be old.
def ConsumerOk (ring : Dev) (array : Nat) (u : UserRead) : SpscReadPc → Prop
  | .emptyCons prod => prod ≠ ring.consIdx → 0 < depth ring.prodIdx ring.consIdx
  | .consume => 0 < depth ring.prodIdx ring.consIdx
  | .len cons slot => Draining ring array cons slot
  | .copy f =>
      Draining ring array f.cons f.slot ∧ f.len = min u.count ring.consumerSlot.len ∧
        f.out.length ≤ f.len ∧ f.out = ring.consumerSlot.data.take f.out.length
  | .publish f =>
      Draining ring array f.cons f.slot ∧ f.len = f.out.length ∧
        f.out = ring.consumerSlot.message.take u.count
  | .bytesLoad f | .bytesStore f _ | .msgsLoad f | .msgsStore f _ | .trace f | .wake f =>
      f.len = f.out.length
  | _ => True

end Definitions

section Slots

variable {ring : Dev} (hg : Geometry ring) (hr : SpscRing ring)

include hg hr

-- The slot of an index that is published and not yet read.
theorem masked_published {index : BitVec 32}
    (hi : depth index ring.consIdx < depth ring.prodIdx ring.consIdx)
    (hlt : depth ring.prodIdx ring.consIdx < ring.numBuffers) :
    ring.masked index ≠ ring.masked ring.prodIdx :=
  masked_ne_prodIdx hr.power hg.num_lt hi hlt

theorem masked_cons_ne_prod (hpos : 0 < depth ring.prodIdx ring.consIdx)
    (hlt : depth ring.prodIdx ring.consIdx < ring.numBuffers) :
    ring.masked ring.consIdx ≠ ring.masked ring.prodIdx :=
  masked_published hg hr (by rw [depth_self]; exact hpos) hlt

-- Writing to the producer's slot is seen neither in the queue nor by the consumer.
theorem spscQueue_fill (slot : Slot) (hlt : depth ring.prodIdx ring.consIdx < ring.numBuffers) :
    spscQueue (ring.setSlot (ring.masked ring.prodIdx) slot) = spscQueue ring := by
  rw [hr.masked_prodIdx hg]
  exact window_setSlot_off _ _ _ _ (Nat.le_refl _) hlt

theorem consumerSlot_fill (slot : Slot) (hpos : 0 < depth ring.prodIdx ring.consIdx)
    (hlt : depth ring.prodIdx ring.consIdx < ring.numBuffers) :
    (ring.setSlot (ring.masked ring.prodIdx) slot).consumerSlot = ring.consumerSlot :=
  slot_setSlot_of_ne (masked_cons_ne_prod hg hr hpos hlt) slot

omit hr in
theorem producerSlot_fill (slot : Slot) (hi : ring.masked ring.prodIdx < ring.numBuffers) :
    (ring.setSlot (ring.masked ring.prodIdx) slot).producerSlot = slot :=
  slot_setSlot_self hg hi slot

end Slots

section Frames

variable {ring : Dev} {array : Nat}

theorem ConsumerOk.fill {u : UserRead} {pc : SpscReadPc} (hg : Geometry ring) (hr : SpscRing ring)
    (slot : Slot) (hlt : depth ring.prodIdx ring.consIdx < ring.numBuffers)
    (h : ConsumerOk ring array u pc) :
    ConsumerOk (ring.setSlot (ring.masked ring.prodIdx) slot) array u pc := by
  cases pc with
  | len cons ptr => exact ⟨h.cons, h.slot, h.ready⟩
  | copy f =>
      obtain ⟨hd, hrest⟩ := h
      refine ⟨⟨hd.cons, hd.slot, hd.ready⟩, ?_⟩
      rw [consumerSlot_fill hg hr slot hd.ready hlt]
      exact hrest
  | publish f =>
      obtain ⟨hd, hout⟩ := h
      refine ⟨⟨hd.cons, hd.slot, hd.ready⟩, ?_⟩
      rw [consumerSlot_fill hg hr slot hd.ready hlt]
      exact hout
  | emptyCons | consume | bytesLoad | bytesStore | msgsLoad | msgsStore | trace | wake => exact h
  | empty | sleep | wait => trivial

theorem depth_publish (hg : Geometry ring)
    (hlt : depth ring.prodIdx ring.consIdx < ring.numBuffers) :
    depth (ring.prodIdx + 1) ring.consIdx = depth ring.prodIdx ring.consIdx + 1 :=
  depth_advance_head ring.prodIdx ring.consIdx 1 (by have := hg.num_lt; omega)

theorem depth_release (hpos : 0 < depth ring.prodIdx ring.consIdx) :
    depth ring.prodIdx (ring.consIdx + 1) = depth ring.prodIdx ring.consIdx - 1 :=
  depth_advance_tail ring.prodIdx ring.consIdx 1 hpos

-- One more published message only makes the consumer's view older.
theorem ConsumerOk.publish {u : UserRead} {pc : SpscReadPc} (hg : Geometry ring)
    (hlt : depth ring.prodIdx ring.consIdx < ring.numBuffers) (h : ConsumerOk ring array u pc) :
    ConsumerOk { ring with prodIdx := ring.prodIdx + 1 } array u pc := by
  have hpos : 0 < depth (ring.prodIdx + 1) ring.consIdx := by
    rw [depth_publish hg hlt]
    omega
  cases pc with
  | emptyCons prod => exact fun _ => hpos
  | consume => exact hpos
  | len cons ptr => exact ⟨h.cons, h.slot, hpos⟩
  | copy f => exact ⟨⟨h.1.cons, h.1.slot, hpos⟩, h.2⟩
  | publish f => exact ⟨⟨h.1.cons, h.1.slot, hpos⟩, h.2⟩
  | bytesLoad | bytesStore | msgsLoad | msgsStore | trace | wake => exact h
  | empty | sleep | wait => trivial

-- One more free slot only makes the producer's view older.
theorem ProducerOk.release {u : UserWrite} {pc : SpscWritePc}
    (hpos : 0 < depth ring.prodIdx ring.consIdx) (h : ProducerOk ring array u pc) :
    ProducerOk { ring with consIdx := ring.consIdx + 1 } array u pc := by
  have hroom (hlt : depth ring.prodIdx ring.consIdx < ring.numBuffers) :
      depth ring.prodIdx (ring.consIdx + 1) < ring.numBuffers := by
    rw [depth_release hpos]
    omega
  cases pc with
  | fullCons prod =>
      obtain ⟨hu, hprod | hlt⟩ := h
      · exact ⟨hu, Or.inl hprod⟩
      · exact ⟨hu, Or.inr (hroom hlt)⟩
  | produce => exact ⟨h.1, hroom h.2⟩
  | copy f i => exact ⟨⟨h.1.prod, h.1.slot, hroom h.1.room, h.1.fits⟩, h.2⟩
  | setLen f => exact ⟨⟨h.1.prod, h.1.slot, hroom h.1.room, h.1.fits⟩, h.2⟩
  | publish f => exact ⟨⟨h.1.prod, h.1.slot, hroom h.1.room, h.1.fits⟩, h.2⟩
  | full | sleep | wait => exact h
  | clamp | bytesLoad | bytesStore | msgsLoad | msgsStore | occ | peak | peakStore | wake =>
      trivial

end Frames

end Kbuf
