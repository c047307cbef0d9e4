import Kbuf.Machine.Frame

namespace Kbuf

variable (w : World)

@[simp] theorem array_slotsPtr : w.array w.slotsPtr = w.dev.slots := by
  simp [World.array]

theorem array_setArray (ptr : Nat) (slots : List Slot) (other : Nat) :
    (w.setArray ptr slots).array other = if other = ptr then slots else w.array other := by
  by_cases hp : ptr = w.slotsPtr
  · subst hp
    by_cases ho : other = w.slotsPtr
    · simp [World.array, World.setArray, ho]
    · simp [World.array, World.setArray, ho]
  · by_cases ho : other = w.slotsPtr
    · have hne : other ≠ ptr := fun h => hp (h.symm.trans ho)
      simp [World.array, World.setArray, hp, ho, Ne.symm hp]
    · by_cases hop : other = ptr
      · subst hop
        simp [World.array, World.setArray, hp]
      · simp [World.array, World.setArray, hp, ho, hop]

theorem array_store (slot : SlotPtr) (value : Slot) (other : Nat) :
    (w.store slot value).array other =
      if other = slot.array then (w.array other).set slot.index value else w.array other := by
  rw [World.store, array_setArray]
  by_cases h : other = slot.array
  · simp [h]
  · simp [h]

theorem array_alloc (slots : List Slot) (h : w.slotsPtr < w.nextPtr) (other : Nat) :
    (w.alloc slots).array other = if other = w.nextPtr then slots else w.array other := by
  by_cases ho : other = w.nextPtr
  · simp [World.array, World.alloc, ho, Nat.ne_of_gt h]
  · simp [World.array, World.alloc, ho]

-- Moving `dev->slots` to another array changes no array.
theorem array_install (dev : Dev) (ptr other : Nat) (h : dev.slots = w.array ptr) :
    (w.install dev ptr).array other = w.array other := by
  by_cases hp : other = ptr
  · subst hp
    simp [World.array, World.install] at h ⊢
    exact h
  · by_cases ho : other = w.slotsPtr
    · subst ho
      simp [World.array, World.install, hp]
    · simp [World.array, World.install, hp, ho]

-- The steps that neither write to a slot nor change where the slots are.
structure SameLayout (w w' : World) : Prop where
  slotsPtr : w'.slotsPtr = w.slotsPtr
  heap : w'.heap = w.heap
  nextPtr : w'.nextPtr = w.nextPtr
  slots : w'.dev.slots = w.dev.slots
  numBuffers : w'.dev.numBuffers = w.dev.numBuffers
  bufferSize : w'.dev.bufferSize = w.dev.bufferSize

section Layout

variable {w w' : World}

theorem SameLayout.array (h : SameLayout w w') (ptr : Nat) : w'.array ptr = w.array ptr := by
  unfold World.array
  rw [h.slotsPtr, h.heap, h.slots]

theorem WaitMove.sameLayout {wq : Wq} {cond : Dev → Bool} {me : Nat} {pc : WaitPc}
    {next : WaitNext} (h : WaitMove wq cond me w pc w' next) : SameLayout w w' := by
  obtain ⟨waiters, rfl⟩ := h.frame
  cases wq <;> exact ⟨rfl, rfl, rfl, rfl, rfl, rfl⟩

theorem consumeStep_sameLayout (w : World) (me : Nat) (u : UserRead) :
    SameLayout w (consumeStep w me u).1 := by
  have hn := consumeStep_numBuffers w me u
  have hb := consumeStep_bufferSize w me u
  have hs := consumeStep_slots w me u
  obtain ⟨log, h⟩ := consumeStep_world w me u
  rw [h] at hn hb hs ⊢
  exact ⟨rfl, rfl, rfl, hs, hn, hb⟩

theorem resetStore_sameLayout (w : World) (field : Nat) :
    SameLayout w { w with dev := resetStore w.dev field } := by
  obtain ⟨_, _, _, _, _, _, _, h⟩ := resetStore_frame w.dev field
  rw [h]
  exact ⟨rfl, rfl, rfl, rfl, rfl, rfl⟩

end Layout

end Kbuf
