import Kbuf.Machine.Ownership

namespace Kbuf

section Contents

-- The device without its statistics.
def Dev.contents (dev : Dev) : Dev :=
  { dev with
    peakCount := 0
    bytesProduced := 0
    bytesConsumed := 0
    msgsProduced := 0
    msgsConsumed := 0
    readSleeps := 0
    writeSleeps := 0 }

variable {dev other : Dev}

-- Devices with the same contents differ in their statistics only.
theorem Dev.exists_of_contents (h : other.contents = dev.contents) :
    ∃ peak bytesIn bytesOut msgsIn msgsOut reads writes, other = { dev with
      peakCount := peak
      bytesProduced := bytesIn
      bytesConsumed := bytesOut
      msgsProduced := msgsIn
      msgsConsumed := msgsOut
      readSleeps := reads
      writeSleeps := writes } := by
  refine ⟨other.peakCount, other.bytesProduced, other.bytesConsumed, other.msgsProduced,
    other.msgsConsumed, other.readSleeps, other.writeSleeps, ?_⟩
  cases dev
  cases other
  simpa [Dev.contents] using h

theorem queue_of_contents (h : other.contents = dev.contents) : queue other = queue dev := by
  obtain ⟨_, _, _, _, _, _, _, rfl⟩ := Dev.exists_of_contents h
  rfl

theorem Wellformed.of_contents (h : Wellformed dev) (hsame : other.contents = dev.contents) :
    Wellformed other := by
  obtain ⟨_, _, _, _, _, _, _, rfl⟩ := Dev.exists_of_contents hsame
  refine ⟨h.geometry.of_eq rfl rfl rfl, ?_⟩
  have hd := h.discipline
  unfold Discipline at hd ⊢
  dsimp only at hd ⊢
  cases hm : dev.mode with
  | SPSC =>
      simp only [hm] at hd
      exact ⟨hd.power, hd.depth_le⟩
  | BLOCKING =>
      simp only [hm] at hd
      exact ⟨hd.count_nonneg, hd.count_le, hd.readPos_lt, hd.writePos_eq⟩

theorem resetStore_contents (dev : Dev) (field : Nat) :
    (resetStore dev field).contents = dev.contents := by
  obtain ⟨_, _, _, _, _, _, _, hd⟩ := resetStore_frame dev field
  rw [hd]
  rfl

end Contents

section Resize

variable {w w' : World} {rq : ResizeArg}

-- A resize has tested its numbers, and later on has an array of that size.
def ResizePc.Prepared (w : World) (rq : ResizeArg) : ResizePc → Prop
  | .alloc => rq.Valid
  | .lock ptr | .swap ptr =>
      rq.Valid ∧ w.array ptr = List.replicate rq.numBuffers ⟨List.replicate rq.bufferSize 0, 0⟩
  | _ => True

-- The array of a resize that has not gone through is nobody else's.
theorem ResizePc.Prepared.of_arrays {pc : ResizePc} (h : pc.Prepared w rq)
    (harrays : ∀ ptr, pc.owned = some ptr → w'.array ptr = w.array ptr) : pc.Prepared w' rq := by
  cases pc with
  | lock ptr | swap ptr => exact ⟨h.1, (harrays ptr rfl).trans h.2⟩
  | check | alloc | unlockBusy | freeNew | unlock | freeOld | wake => exact h

theorem ResizePc.Prepared.alloc {slots : List Slot} (h : ResizePc.alloc.Prepared w rq)
    (hlt : w.slotsPtr < w.nextPtr)
    (halloc : allocSlots rq.kmalloc rq.numBuffers rq.bufferSize = some slots) :
    (ResizePc.lock w.nextPtr).Prepared (w.alloc slots) rq := by
  refine ⟨h, ?_⟩
  rw [array_alloc w _ hlt, if_pos rfl]
  exact allocSlots_eq_some halloc

-- The geometry of the array that kbuf_alloc_slots has set up.
theorem ResizeArg.Valid.geometry {slots : List Slot} (h : rq.Valid) (dev : Dev)
    (hslots : slots = List.replicate rq.numBuffers ⟨List.replicate rq.bufferSize 0, 0⟩) :
    Geometry (dev.resized rq slots) :=
  (emptyDev_geometry dev.mode rq.numBuffers rq.bufferSize h.num_pos h.num_le h.size_pos
    h.size_le).of_eq hslots rfl rfl

end Resize

end Kbuf
