import Kbuf.Machine.Heap

namespace Kbuf

open Interleaving

section Definitions

-- The sizes with which the data buffers of an array were allocated.
def World.sizes (w : World) (ptr : Nat) : List Nat := (w.array ptr).map fun slot => slot.data.length

-- The points of a write between its clamp and its choice of a slot.
def WritePc.unplaced : WritePc → Bool
  | .loop | .unlockSleep | .wait _ | .relock | .produce => true
  | .lock | .clamp | .unlock _ | .wake _ => false

def SpscWritePc.unplaced : SpscWritePc → Bool
  | .full | .fullCons _ | .sleep | .wait _ | .produce => true
  | _ => false

-- The count of a write that has been clamped and has no slot yet.
def Local.clamped : Local → Option Nat
  | .writeBlocking _ u pc => if pc.unplaced then some u.count else none
  | .writeSpsc _ u pc => if pc.unplaced then some u.count else none
  | _ => none

def World.HasRoom (w : World) (slot : SlotPtr) (count : Nat) : Prop :=
  slot.array < w.nextPtr ∧ ∃ size, (w.sizes slot.array)[slot.index]? = some size ∧ count ≤ size

-- A resize whose new array has been allocated as it asked for.
def World.Allocated (w : World) (rq : ResizeArg) (ptr : Nat) : Prop :=
  ptr < w.nextPtr ∧ w.sizes ptr = List.replicate rq.numBuffers rq.bufferSize

def ResizeArg.InRange (rq : ResizeArg) : Prop :=
  1 ≤ rq.numBuffers ∧ rq.numBuffers ≤ KBUF_MAX_NUM_BUFFERS

def Local.Sized (w : World) : Local → Prop
  | .writeSpsc _ u (.copy f _) => w.HasRoom f.slot u.count
  | .writeSpsc _ u (.setLen f) => w.HasRoom f.slot u.count
  | .resize rq .alloc => rq.InRange
  | .resize rq (.lock ptr) => rq.InRange ∧ w.Allocated rq ptr
  | .resize rq (.swap ptr) => rq.InRange ∧ w.Allocated rq ptr
  | _ => True

-- Every slot is as large as it was allocated and holds no more than that.
structure Sizes (w : World) : Prop where
  ptr_lt : w.slotsPtr < w.nextPtr
  num_pos : 1 ≤ w.dev.numBuffers
  num_le : w.dev.numBuffers ≤ KBUF_MAX_NUM_BUFFERS
  writePos_lt : w.dev.writePos < w.dev.numBuffers
  sizes_eq : w.sizes w.slotsPtr = List.replicate w.dev.numBuffers w.dev.bufferSize
  len_le : ∀ ptr, ∀ slot ∈ w.array ptr, slot.len ≤ slot.data.length

end Definitions

section Slots

variable {w w' : World}

theorem Sizes.data_length (h : Sizes w) {slot : Slot} (hm : slot ∈ w.dev.slots) :
    slot.data.length = w.dev.bufferSize := by
  have hs := h.sizes_eq
  rw [World.sizes, array_slotsPtr] at hs
  have hmem : slot.data.length ∈ w.dev.slots.map fun slot => slot.data.length :=
    List.mem_map_of_mem hm
  rw [hs] at hmem
  exact (List.mem_replicate.mp hmem).2

theorem Sizes.slots_length (h : Sizes w) : w.dev.slots.length = w.dev.numBuffers := by
  have hs := congrArg List.length h.sizes_eq
  simpa [World.sizes] using hs

theorem Sizes.slot_length (h : Sizes w) {index : Nat} (hi : index < w.dev.numBuffers) :
    (w.dev.slot index).data.length = w.dev.bufferSize := by
  have hi' : index < w.dev.slots.length := by rw [h.slots_length]; exact hi
  have hm : w.dev.slot index ∈ w.dev.slots := by simp [Dev.slot, hi']
  exact h.data_length hm

theorem World.HasRoom.le_length {slot : SlotPtr} {count : Nat} (h : w.HasRoom slot count) :
    count ≤ (w.load slot).data.length := by
  obtain ⟨-, size, hsize, hle⟩ := h
  rw [World.sizes, List.getElem?_map, Option.map_eq_some_iff] at hsize
  obtain ⟨value, hvalue, rfl⟩ := hsize
  simpa [World.load, hvalue] using hle

-- The mask never leaves the array, whether or not the capacity is a power of two.
theorem Sizes.masked_lt (h : Sizes w) (index : BitVec 32) :
    w.dev.masked index < w.dev.numBuffers := by
  have hn := h.num_le
  simp only [KBUF_MAX_NUM_BUFFERS] at hn
  exact FreeRunning.mask_lt h.num_pos (by omega) index

-- A store into a slot that keeps the size of its buffer.
theorem sizes_store (slot : SlotPtr) (value : Slot)
    (hvalue : value.data.length = (w.load slot).data.length) (ptr : Nat) :
    (w.store slot value).sizes ptr = w.sizes ptr := by
  rw [World.sizes, World.sizes, array_store]
  split
  · rename_i hptr
    subst hptr
    rw [List.map_set]
    by_cases hi : slot.index < (w.array slot.array).length
    · have hload : w.load slot = (w.array slot.array)[slot.index] := by
        simp [World.load, hi]
      apply List.ext_getElem?
      intro i
      rw [hvalue, hload, List.getElem?_set]
      split
      · rename_i hindex
        subst hindex
        simp [hi]
      · rfl
    · rw [List.set_eq_of_length_le (by simpa using hi)]
  · rfl

theorem len_le_store (slot : SlotPtr) (value : Slot) (hvalue : value.len ≤ value.data.length)
    (h : ∀ ptr, ∀ slot ∈ w.array ptr, slot.len ≤ slot.data.length) (ptr : Nat) :
    ∀ other ∈ (w.store slot value).array ptr, other.len ≤ other.data.length := by
  intro other hm
  rw [array_store] at hm
  split at hm
  · rcases List.mem_or_eq_of_mem_set hm with hm | rfl
    · exact h ptr other hm
    · exact hvalue
  · exact h ptr other hm

theorem Sizes.store (h : Sizes w) (slot : SlotPtr) (value : Slot)
    (hdata : value.data.length = (w.load slot).data.length)
    (hlen : value.len ≤ value.data.length) : Sizes (w.store slot value) where
  ptr_lt := h.ptr_lt
  num_pos := h.num_pos
  num_le := h.num_le
  writePos_lt := h.writePos_lt
  sizes_eq := (sizes_store slot value hdata _).trans h.sizes_eq
  len_le := len_le_store slot value hlen h.len_le

theorem Sizes.of_sameLayout (h : Sizes w) (hl : SameLayout w w')
    (hpos : w'.dev.writePos < w'.dev.numBuffers) : Sizes w' where
  ptr_lt := by rw [hl.slotsPtr, hl.nextPtr]; exact h.ptr_lt
  num_pos := hl.numBuffers ▸ h.num_pos
  num_le := hl.numBuffers ▸ h.num_le
  writePos_lt := hpos
  sizes_eq := by
    rw [World.sizes, hl.array, hl.slotsPtr, hl.numBuffers, hl.bufferSize]
    exact h.sizes_eq
  len_le ptr := by rw [hl.array]; exact h.len_le ptr

end Slots

section Produce

-- Whatever becomes of the copy, one slot is written and its buffer keeps its size.
theorem ringProduce_slots (dev : Dev) (u : UserWrite) :
    ∃ slot, (ringProduce dev u).1.slots = dev.slots.set dev.writePos slot ∧
      slot.data.length = (dev.slot dev.writePos).data.length ∧
      (slot.len = (dev.slot dev.writePos).len ∨ slot.len = u.count) := by
  unfold ringProduce
  dsimp only
  split
  · exact ⟨_, rfl, length_copyFromUser .., Or.inl rfl⟩
  · exact ⟨_, rfl, length_copyFromUser .., Or.inr rfl⟩

theorem ringProduce_writePos (dev : Dev) (u : UserWrite) (h : dev.writePos < dev.numBuffers) :
    (ringProduce dev u).1.writePos < (ringProduce dev u).1.numBuffers := by
  unfold ringProduce
  dsimp only
  split
  · exact h
  · exact Nat.mod_lt _ (by omega)

-- A produce changes the slots as a single store does.
theorem produceStep_array (w : World) (me : Nat) (u : UserWrite) :
    ∃ slot, slot.data.length = (w.load ⟨w.slotsPtr, w.dev.writePos⟩).data.length ∧
      (slot.len = (w.load ⟨w.slotsPtr, w.dev.writePos⟩).len ∨ slot.len = u.count) ∧
      ∀ ptr, (produceStep w me u).1.array ptr =
        (w.store ⟨w.slotsPtr, w.dev.writePos⟩ slot).array ptr := by
  obtain ⟨log, hw⟩ := produceStep_world w me u
  obtain ⟨slot, hslots, hdata, hlen⟩ := ringProduce_slots w.dev u
  have hload : w.load ⟨w.slotsPtr, w.dev.writePos⟩ = w.dev.slot w.dev.writePos := by
    simp [World.load, Dev.slot]
  rw [hload]
  refine ⟨slot, hdata, hlen, fun ptr => ?_⟩
  rw [hw, array_store]
  by_cases hp : ptr = w.slotsPtr
  · simp [World.array, hp, hslots]
  · simp [World.array, hp]

theorem produceStep_sizes (w : World) (me : Nat) (u : UserWrite) (ptr : Nat) :
    (produceStep w me u).1.sizes ptr = w.sizes ptr := by
  obtain ⟨slot, hdata, -, harray⟩ := produceStep_array w me u
  rw [World.sizes, harray]
  exact sizes_store _ slot hdata ptr

theorem Sizes.produce {w : World} (h : Sizes w) (me : Nat) (u : UserWrite)
    (hu : u.count ≤ w.dev.bufferSize) : Sizes (produceStep w me u).1 := by
  obtain ⟨log, hw⟩ := produceStep_world w me u
  obtain ⟨slot, hdata, hlen, harray⟩ := produceStep_array w me u
  have hload : w.load ⟨w.slotsPtr, w.dev.writePos⟩ = w.dev.slot w.dev.writePos := by
    simp [World.load, Dev.slot]
  have hsize := h.slot_length h.writePos_lt
  have hold : (w.dev.slot w.dev.writePos).len ≤ (w.dev.slot w.dev.writePos).data.length := by
    refine h.len_le w.slotsPtr _ ?_
    have hi : w.dev.writePos < w.dev.slots.length := by rw [h.slots_length]; exact h.writePos_lt
    simp [Dev.slot, hi]
  rw [hload] at hdata hlen
  refine ⟨?_, ?_, ?_, ?_, ?_, fun ptr => ?_⟩
  · rw [hw]
    exact h.ptr_lt
  · rw [hw]
    simpa using h.num_pos
  · rw [hw]
    simpa using h.num_le
  · rw [hw]
    exact ringProduce_writePos w.dev u h.writePos_lt
  · rw [produceStep_sizes, hw]
    simpa using h.sizes_eq
  · rw [harray]
    exact len_le_store _ slot (by omega) h.len_le ptr

end Produce

section Steps

variable {w w' : World} {here next : Local} {me : Nat}

-- What a step leaves behind, and what the other processes may notice of it.
structure SizeStep (w : World) (here : Local) (w' : World) (next : Local) : Prop where
  sizes : Sizes w'
  sized : next.Sized w'
  clamped : ∀ count, next.clamped = some count →
    here.clamped = some count ∨ count ≤ w.dev.bufferSize
  frame : ∀ ptr, ptr < w.nextPtr → w'.sizes ptr = w.sizes ptr
  nextPtr_le : w.nextPtr ≤ w'.nextPtr
  bufferSize : w'.dev.bufferSize = w.dev.bufferSize ∨ ∃ rq ptr,
    here = .resize rq (.swap ptr) ∧ occupancy w.dev = 0 ∧ w'.dev.bufferSize = rq.bufferSize ∧
      next.clamped = none

theorem SizeStep.quiet (hs : Sizes w) (hl : SameLayout w w')
    (hpos : w'.dev.writePos = w.dev.writePos) (hnext : next.Sized w')
    (hclamped : ∀ count, next.clamped = some count →
      here.clamped = some count ∨ count ≤ w.dev.bufferSize) :
    SizeStep w here w' next where
  sizes := hs.of_sameLayout hl (by rw [hpos, hl.numBuffers]; exact hs.writePos_lt)
  sized := hnext
  clamped := hclamped
  frame ptr _ := by rw [World.sizes, hl.array, World.sizes]
  nextPtr_le := hl.nextPtr ▸ Nat.le_refl _
  bufferSize := Or.inl hl.bufferSize

theorem SizeStep.wait {wq : Wq} {cond : Dev → Bool} {pc : WaitPc} {out : WaitNext} (hs : Sizes w)
    (hw : WaitMove wq cond me w pc w' out) (h : Waiting out wq here next) :
    SizeStep w here w' next := by
  refine .quiet hs hw.sameLayout (by rw [hw.dev_eq]) ?_ fun count hcount => Or.inl ?_
  · cases h <;> cases out <;> trivial
  · cases h with
    | readBlocking | readSpsc => cases out <;> cases hcount
    | writeBlocking | writeSpsc =>
        cases out with
        | wait | woken => exact hcount
        | interrupted => cases hcount

-- The clamp leaves no more than a slot of the device holds.
theorem SizeStep.clamp {u : UserWrite} (hs : Sizes w) (hnext : next.Sized w)
    (hclamped : next.clamped = some (u.clamp w.dev.bufferSize).count) :
    SizeStep w here w next := by
  refine .quiet hs ⟨rfl, rfl, rfl, rfl, rfl, rfl⟩ rfl hnext fun count hcount => Or.inr ?_
  obtain rfl := Option.some.inj (hclamped.symm.trans hcount)
  rw [clamp_count]
  exact Nat.min_le_right _ _

theorem ReadMove.size_step {nonblock : Bool} {u : UserRead} {pc : ReadPc} {after : Next ReadPc}
    (hs : Sizes w) (h : ReadMove nonblock u me w pc w' after) :
    SizeStep w (.readBlocking nonblock u pc) w' (after.lift (.readBlocking nonblock u)) := by
  cases h with
  | wait hw => exact .wait hs hw (.readBlocking ..)
  | consume =>
      exact .quiet hs (consumeStep_sameLayout w me u) (consumeStep_writePos w me u) trivial nofun
  | lock | lockSignal | again | sleep | ready | unlockSleep | unlockOk | unlockError | wake =>
      exact .quiet hs ⟨rfl, rfl, rfl, rfl, rfl, rfl⟩ rfl trivial nofun

theorem WriteMove.size_step {nonblock : Bool} {u : UserWrite} {pc : WritePc}
    {after : Next (UserWrite × WritePc)} (hs : Sizes w)
    (hu : ∀ count, (Local.writeBlocking nonblock u pc).clamped = some count →
      count ≤ w.dev.bufferSize)
    (h : WriteMove nonblock u me w pc w' after) :
    SizeStep w (.writeBlocking nonblock u pc) w'
      (after.lift fun (u, pc) => .writeBlocking nonblock u pc) := by
  cases h with
  | wait hw => exact .wait hs hw (.writeBlocking ..)
  | clamp => exact .clamp hs trivial rfl
  | produce =>
      obtain ⟨log, hw⟩ := produceStep_world w me u
      refine ⟨hs.produce me u (hu u.count rfl), trivial, nofun,
        fun ptr _ => produceStep_sizes w me u ptr, ?_, Or.inl ?_⟩
      · rw [hw]
      · rw [hw]
        exact ringProduce_bufferSize u
  | lock | lockSignal | again | relockSignal | unlockOk | unlockError | wake =>
      exact .quiet hs ⟨rfl, rfl, rfl, rfl, rfl, rfl⟩ rfl trivial nofun
  | sleep | ready | unlockSleep | relock =>
      exact .quiet hs ⟨rfl, rfl, rfl, rfl, rfl, rfl⟩ rfl trivial (fun _ hcount => Or.inl hcount)

theorem SpscReadMove.size_step {nonblock : Bool} {u : UserRead} {pc : SpscReadPc}
    {after : Next SpscReadPc} (hs : Sizes w) (h : SpscReadMove nonblock u me w pc w' after) :
    SizeStep w (.readSpsc nonblock u pc) w' (after.lift (.readSpsc nonblock u)) := by
  cases h with
  | wait hw => exact .wait hs hw (.readSpsc ..)
  | empty | again | block | ready | sleep | consume | len | copyByte | copyFault | copyDone
  | publish | bytesLoad | bytesStore | msgsLoad | msgsStore | trace | wake =>
      exact .quiet hs ⟨rfl, rfl, rfl, rfl, rfl, rfl⟩ rfl trivial nofun

-- A store into a slot by a producer whose count fits.
theorem SizeStep.store (hs : Sizes w) (slot : SlotPtr) (value : Slot)
    (hdata : value.data.length = (w.load slot).data.length)
    (hlen : value.len ≤ value.data.length)
    (hnext : next.Sized (w.store slot value)) (hclamped : next.clamped = none) :
    SizeStep w here (w.store slot value) next where
  sizes := hs.store slot value hdata hlen
  sized := hnext
  clamped count hc := by rw [hclamped] at hc; cases hc
  frame ptr _ := sizes_store slot value hdata ptr
  nextPtr_le := Nat.le_refl _
  bufferSize := Or.inl rfl

theorem Sizes.load_len_le (hs : Sizes w) (slot : SlotPtr) :
    (w.load slot).len ≤ (w.load slot).data.length := by
  by_cases hi : slot.index < (w.array slot.array).length
  · refine hs.len_le slot.array _ ?_
    simp [World.load, hi]
  · have hnone := List.getElem?_eq_none (Nat.le_of_not_lt hi)
    simp only [World.load, List.getD_eq_getElem?_getD, hnone, Option.getD_none]
    exact Nat.zero_le _

-- The slot a producer picks has room for a count that fits the device.
theorem Sizes.hasRoom (hs : Sizes w) (index : BitVec 32) {count : Nat}
    (hu : count ≤ w.dev.bufferSize) : w.HasRoom (w.slotAt index) count := by
  refine ⟨hs.ptr_lt, w.dev.bufferSize, ?_, hu⟩
  simp only [World.slotAt, hs.sizes_eq]
  rw [List.getElem?_replicate_of_lt (hs.masked_lt index)]

theorem SpscWriteMove.size_step {nonblock : Bool} {u : UserWrite} {pc : SpscWritePc}
    {after : Next (UserWrite × SpscWritePc)} (hs : Sizes w)
    (hsized : (Local.writeSpsc nonblock u pc).Sized w)
    (hu : ∀ count, (Local.writeSpsc nonblock u pc).clamped = some count →
      count ≤ w.dev.bufferSize)
    (h : SpscWriteMove nonblock u me w pc w' after) :
    SizeStep w (.writeSpsc nonblock u pc) w'
      (after.lift fun (u, pc) => .writeSpsc nonblock u pc) := by
  cases h with
  | wait hw => exact .wait hs hw (.writeSpsc ..)
  | clamp => exact .clamp hs trivial rfl
  | produce =>
      have hroom := hs.hasRoom w.dev.prodIdx (hu u.count rfl)
      exact .quiet hs ⟨rfl, rfl, rfl, rfl, rfl, rfl⟩ rfl hroom nofun
  | @copyByte f i hi =>
      have hdata : ((w.load f.slot).data.set i (u.ubuf.getD i 0)).length =
        (w.load f.slot).data.length := List.length_set ..
      refine .store hs f.slot _ hdata ?_ ?_ rfl
      · dsimp only
        rw [hdata]
        exact hs.load_len_le f.slot
      · obtain ⟨hlt, size, hsize, hle⟩ := hsized
        exact ⟨hlt, size, by rw [sizes_store _ _ hdata]; exact hsize, hle⟩
  | @setLen f =>
      exact .store hs f.slot _ rfl hsized.le_length trivial rfl
  | copyDone => exact .quiet hs ⟨rfl, rfl, rfl, rfl, rfl, rfl⟩ rfl hsized nofun
  | full | block | ready | sleep =>
      exact .quiet hs ⟨rfl, rfl, rfl, rfl, rfl, rfl⟩ rfl trivial (fun _ hcount => Or.inl hcount)
  | again | copyFault | publish | bytesLoad | bytesStore | msgsLoad | msgsStore | occ
  | peakHigher | peakKept | peakStore | wake =>
      exact .quiet hs ⟨rfl, rfl, rfl, rfl, rfl, rfl⟩ rfl trivial nofun

theorem sizes_fresh (n size : Nat) :
    (List.replicate n (⟨List.replicate size 0, 0⟩ : Slot)).map (fun slot => slot.data.length) =
      List.replicate n size := by
  rw [List.map_replicate, List.length_replicate]

-- kbuf_alloc_slots leaves every older array as it was.
theorem sizes_alloc_of_lt (slots : List Slot) (hlt : w.slotsPtr < w.nextPtr) {ptr : Nat}
    (hptr : ptr < w.nextPtr) : (w.alloc slots).sizes ptr = w.sizes ptr := by
  rw [World.sizes, array_alloc w slots hlt, if_neg (Nat.ne_of_lt hptr), World.sizes]

theorem sizes_alloc_new {kmalloc : Nat → Bool} {n size : Nat} {slots : List Slot}
    (hlt : w.slotsPtr < w.nextPtr) (h : allocSlots kmalloc n size = some slots) :
    (w.alloc slots).sizes w.nextPtr = List.replicate n size := by
  rw [World.sizes, array_alloc w slots hlt, if_pos rfl, allocSlots_eq_some h, sizes_fresh]

theorem sizes_install (dev : Dev) (ptr other : Nat) (h : dev.slots = w.array ptr) :
    (w.install dev ptr).sizes other = w.sizes other := by
  rw [World.sizes, array_install w dev ptr other h, World.sizes]

theorem ResizeMove.size_step {rq : ResizeArg} {pc : ResizePc} {after : Next ResizePc}
    (hs : Sizes w) (hsized : (Local.resize rq pc).Sized w) (h : ResizeMove rq me w pc w' after) :
    SizeStep w (.resize rq pc) w' (after.lift (.resize rq)) := by
  cases h with
  | accept hok =>
      obtain ⟨hn, hn', -⟩ := resizeCheck_ok hok
      exact .quiet hs ⟨rfl, rfl, rfl, rfl, rfl, rfl⟩ rfl ⟨hn, hn'⟩ nofun
  | @alloc slots hslots =>
      have hlt := hs.ptr_lt
      have hold (ptr : Nat) (hptr : ptr < w.nextPtr) := sizes_alloc_of_lt slots hlt hptr
      refine ⟨⟨?_, hs.num_pos, hs.num_le, hs.writePos_lt, ?_, ?_⟩, ⟨hsized, ?_, ?_⟩, nofun, hold,
        Nat.le_succ _, Or.inl rfl⟩
      · exact Nat.lt_succ_of_lt hlt
      · exact (hold _ hlt).trans hs.sizes_eq
      · intro ptr slot hm
        rw [array_alloc w slots hlt] at hm
        split at hm
        · rw [allocSlots_eq_some hslots] at hm
          rw [(List.mem_replicate.mp hm).2]
          exact Nat.zero_le _
        · exact hs.len_le ptr slot hm
      · exact Nat.lt_succ_self _
      · exact sizes_alloc_new hlt hslots
  | lock => exact .quiet hs ⟨rfl, rfl, rfl, rfl, rfl, rfl⟩ rfl hsized nofun
  | @swap ptr ho =>
      obtain ⟨hrange, hlt, hsizes⟩ := hsized
      refine ⟨⟨hlt, hrange.1, hrange.2, hrange.1, ?_, ?_⟩, trivial, nofun, ?_, Nat.le_refl _,
        Or.inr ⟨rq, ptr, rfl, ho, rfl, rfl⟩⟩
      · exact (sizes_install _ ptr ptr rfl).trans hsizes
      · intro other
        rw [array_install w _ ptr other rfl]
        exact hs.len_le other
      · exact fun other _ => sizes_install _ ptr other rfl
  | reject | nomem | busy | unlockBusy | freeNew | unlock | freeOld | wake =>
      exact .quiet hs ⟨rfl, rfl, rfl, rfl, rfl, rfl⟩ rfl trivial nofun

theorem Move.size_step {choice : Choice} (hs : Sizes w) (hsized : here.Sized w)
    (hu : ∀ count, here.clamped = some count → count ≤ w.dev.bufferSize)
    (h : Move me w choice here w' next) : SizeStep w here w' next := by
  cases h with
  | @enter _ request _ =>
      cases request <;> exact .quiet hs ⟨rfl, rfl, rfl, rfl, rfl, rfl⟩ rfl trivial nofun
  | readSampleSpsc | readSampleBlocking | writeSampleSpsc | writeSampleBlocking =>
      exact .quiet hs ⟨rfl, rfl, rfl, rfl, rfl, rfl⟩ rfl trivial nofun
  | readBlocking h => exact h.size_step hs
  | writeBlocking h => exact h.size_step hs hu
  | readSpsc h => exact h.size_step hs
  | writeSpsc h => exact h.size_step hs hsized hu
  | resize h => exact h.size_step hs hsized
  | smode h =>
      cases h with
      | switch =>
          exact ⟨hs.of_sameLayout ⟨rfl, rfl, rfl, rfl, rfl, rfl⟩ hs.num_pos, trivial, nofun,
            fun _ _ => rfl, Nat.le_refl _, Or.inl rfl⟩
      | reject | accept | lock | refuse | unlock =>
          exact .quiet hs ⟨rfl, rfl, rfl, rfl, rfl, rfl⟩ rfl trivial nofun
  | reset h =>
      cases h with
      | @store field =>
          obtain ⟨_, _, _, _, _, _, _, hd⟩ := resetStore_frame w.dev field
          refine .quiet hs (resetStore_sameLayout w field) ?_ trivial nofun
          rw [hd]
      | lock | unlock => exact .quiet hs ⟨rfl, rfl, rfl, rfl, rfl, rfl⟩ rfl trivial nofun
  | getstats h => cases h <;> exact .quiet hs ⟨rfl, rfl, rfl, rfl, rfl, rfl⟩ rfl trivial nofun
  | poll h => cases h <;> exact .quiet hs ⟨rfl, rfl, rfl, rfl, rfl, rfl⟩ rfl trivial nofun

theorem Local.Sized.transport (h : here.Sized w)
    (hframe : ∀ ptr, ptr < w.nextPtr → w'.sizes ptr = w.sizes ptr)
    (hnext : w.nextPtr ≤ w'.nextPtr) : here.Sized w' := by
  have hroom {slot : SlotPtr} {count : Nat} (hr : w.HasRoom slot count) :
      w'.HasRoom slot count := by
    obtain ⟨hlt, size, hsize, hle⟩ := hr
    exact ⟨by omega, size, by rw [hframe _ hlt]; exact hsize, hle⟩
  have halloc {rq : ResizeArg} {ptr : Nat} (ha : w.Allocated rq ptr) : w'.Allocated rq ptr :=
    ⟨by have := ha.1; omega, by rw [hframe _ ha.1]; exact ha.2⟩
  unfold Local.Sized at h ⊢
  split at h
  · exact hroom h
  · exact hroom h
  · exact h
  · exact ⟨h.1, halloc h.2⟩
  · exact ⟨h.1, halloc h.2⟩
  · trivial

end Steps

end Kbuf
