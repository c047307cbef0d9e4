import Kbuf.Device.Queue

namespace Kbuf

open Circular FreeRunning

variable {dev : Dev}

section Window

-- Filling a slot past the window leaves the queued messages alone.
theorem window_setSlot_off (start len offset : Nat) (slot : Slot)
    (hlen : len ≤ offset) (hoff : offset < dev.numBuffers) :
    window (dev.setSlot ((start + offset) % dev.numBuffers) slot).message dev.numBuffers start len =
      window dev.message dev.numBuffers start len := by
  apply window_eq_of_eq_off _ _ _ offset hlen hoff
  intro p hp
  simp only [Dev.message, slot_setSlot_of_ne hp]

-- Filling the slot that follows the window and extending it appends the message.
theorem window_setSlot_push (h : Geometry dev) (start len : Nat) (slot : Slot)
    (hlen : len < dev.numBuffers) :
    window (dev.setSlot ((start + len) % dev.numBuffers) slot).message dev.numBuffers start
        (len + 1) =
      window dev.message dev.numBuffers start len ++ [slot.message] := by
  have hi : (start + len) % dev.numBuffers < dev.numBuffers := Nat.mod_lt _ h.num_pos
  rw [window_succ, window_setSlot_off start len len slot (Nat.le_refl _) hlen]
  simp only [Dev.message, slot_setSlot_self h hi]

end Window

theorem length_message (h : Geometry dev) {index : Nat} (hi : index < dev.numBuffers) :
    (dev.message index).length = (dev.slot index).len := by
  have hd := h.data_length _ (slot_mem h hi)
  have hl := h.len_le _ (slot_mem h hi)
  simp only [Dev.message, Slot.message, List.length_take]
  omega

section Fresh

theorem emptyDev_geometry (mode : Mode) (n size : Nat) (hn : 1 ≤ n) (hn' : n ≤ KBUF_MAX_NUM_BUFFERS)
    (hs : 1 ≤ size) (hs' : size ≤ KBUF_MAX_BUFFER_SIZE) : Geometry (emptyDev mode n size) where
  num_pos := hn
  num_le := hn'
  size_pos := hs
  size_le := hs'
  slots_length := by simp [emptyDev]
  data_length slot hm := by
    obtain ⟨-, rfl⟩ := List.mem_replicate.mp hm
    simp [emptyDev]
  len_le slot hm := by
    obtain ⟨-, rfl⟩ := List.mem_replicate.mp hm
    exact Nat.zero_le _

theorem allocBuffers_eq_some {kmalloc : Nat → Bool} {size i remaining : Nat} {slots : List Slot}
    (h : allocBuffers kmalloc size i remaining = some slots) :
    slots = List.replicate remaining ⟨List.replicate size 0, 0⟩ := by
  induction remaining generalizing i slots with
  | zero => exact (Option.some.inj h).symm
  | succ remaining ih =>
      simp only [allocBuffers] at h
      split at h
      · obtain ⟨rest, hrest, rfl⟩ := Option.map_eq_some_iff.mp h
        rw [ih hrest, List.replicate_succ]
      · cases h

theorem allocSlots_eq_some {kmalloc : Nat → Bool} {n size : Nat} {slots : List Slot}
    (h : allocSlots kmalloc n size = some slots) :
    slots = List.replicate n ⟨List.replicate size 0, 0⟩ := by
  unfold allocSlots at h
  split at h
  · exact allocBuffers_eq_some h
  · cases h

end Fresh

section BlockingRing

@[simp] theorem ringConsume_mode (u : UserRead) : (ringConsume dev u).1.mode = dev.mode := by
  unfold ringConsume; dsimp only; split <;> rfl

@[simp] theorem ringProduce_mode (u : UserWrite) : (ringProduce dev u).1.mode = dev.mode := by
  unfold ringProduce; dsimp only; split <;> rfl

@[simp] theorem ringConsume_numBuffers (u : UserRead) :
    (ringConsume dev u).1.numBuffers = dev.numBuffers := by
  unfold ringConsume; dsimp only; split <;> rfl

@[simp] theorem ringProduce_numBuffers (u : UserWrite) :
    (ringProduce dev u).1.numBuffers = dev.numBuffers := by
  unfold ringProduce; dsimp only; split <;> rfl

@[simp] theorem ringConsume_bufferSize (u : UserRead) :
    (ringConsume dev u).1.bufferSize = dev.bufferSize := by
  unfold ringConsume; dsimp only; split <;> rfl

@[simp] theorem ringProduce_bufferSize (u : UserWrite) :
    (ringProduce dev u).1.bufferSize = dev.bufferSize := by
  unfold ringProduce; dsimp only; split <;> rfl

theorem BlockingRing.toUnsigned_count (hg : Geometry dev) (hr : BlockingRing dev) :
    toUnsigned dev.count = dev.count.toNat := by
  have := hg.num_lt
  have := hr.count_le
  exact toUnsigned_of_bounds hr.count_nonneg (by omega)

theorem ringIsEmpty_iff (hr : BlockingRing dev) :
    ringIsEmpty dev = true ↔ blockingQueue dev = [] := by
  have := hr.count_nonneg
  rw [← List.length_eq_zero_iff, blockingQueue, length_window]
  simp only [ringIsEmpty, decide_eq_true_eq]
  omega

theorem ringIsFull_iff (hg : Geometry dev) (hr : BlockingRing dev) :
    ringIsFull dev = true ↔ (blockingQueue dev).length = dev.numBuffers := by
  rw [blockingQueue, length_window]
  simp only [ringIsFull, hr.toUnsigned_count hg, decide_eq_true_eq]

theorem BlockingRing.length_le (hr : BlockingRing dev) :
    (blockingQueue dev).length ≤ dev.numBuffers := by
  have := hr.count_le
  rw [blockingQueue, length_window]
  omega

theorem BlockingRing.lt_of_not_full (hg : Geometry dev) (hr : BlockingRing dev)
    (hfull : ringIsFull dev = false) : dev.count.toNat < dev.numBuffers := by
  have hle := hr.count_le
  have hne : dev.count.toNat ≠ dev.numBuffers := by
    simpa [ringIsFull, hr.toUnsigned_count hg] using hfull
  omega

theorem BlockingRing.writePos_lt (hg : Geometry dev) (hr : BlockingRing dev) :
    dev.writePos < dev.numBuffers := by
  rw [hr.writePos_eq]
  exact Nat.mod_lt _ hg.num_pos

-- The positions after one more message, and after one less.
theorem BlockingRing.produced {other : Dev} (hr : BlockingRing dev)
    (hlt : dev.count.toNat < dev.numBuffers) (hnum : other.numBuffers = dev.numBuffers)
    (hread : other.readPos = dev.readPos)
    (hwrite : other.writePos = (dev.writePos + 1) % dev.numBuffers)
    (hcount : other.count = dev.count + 1) : BlockingRing other where
  count_nonneg := by
    have := hr.count_nonneg
    omega
  count_le := by omega
  readPos_lt := by
    rw [hread, hnum]
    exact hr.readPos_lt
  writePos_eq := by
    rw [hwrite, hread, hnum, hcount, hr.writePos_eq, Nat.mod_add_mod,
      Int.toNat_add hr.count_nonneg (by omega)]
    rfl

theorem BlockingRing.consumed {other : Dev} (hr : BlockingRing dev) (hpos : 0 < dev.count)
    (hnum : other.numBuffers = dev.numBuffers)
    (hread : other.readPos = (dev.readPos + 1) % dev.numBuffers)
    (hwrite : other.writePos = dev.writePos) (hcount : other.count = dev.count - 1) :
    BlockingRing other where
  count_nonneg := by omega
  count_le := by
    have := hr.count_le
    omega
  readPos_lt := by
    rw [hread, hnum]
    exact Nat.mod_lt _ (Nat.zero_lt_of_lt hr.readPos_lt)
  writePos_eq := by
    rw [hwrite, hread, hnum, hcount, hr.writePos_eq, Nat.mod_add_mod]
    congr 1
    omega

-- A write that faults scribbles over the free slot at `writePos` only.
theorem ringProduce_fault (hg : Geometry dev) (hr : BlockingRing dev)
    (hfull : ringIsFull dev = false) (u : UserWrite) (hu : u.ubuf.length < u.count) :
    (ringProduce dev u).2 = .error .EFAULT ∧ Geometry (ringProduce dev u).1 ∧
      BlockingRing (ringProduce dev u).1 ∧
      blockingQueue (ringProduce dev u).1 = blockingQueue dev := by
  have hleft : u.count - u.ubuf.length ≠ 0 := by omega
  have hmem := slot_mem hg (hr.writePos_lt hg)
  simp only [ringProduce, copyFromUser, ne_eq, hleft, not_false_eq_true, ite_true]
  refine ⟨trivial, ?_, ⟨hr.count_nonneg, hr.count_le, hr.readPos_lt, hr.writePos_eq⟩, ?_⟩
  · have hlen := hg.len_le _ hmem
    exact hg.setSlot _ _ (by simp [hg.data_length _ hmem]) hlen
  · rw [hr.writePos_eq]
    exact window_setSlot_off _ _ _ _ (Nat.le_refl _) (hr.lt_of_not_full hg hfull)

theorem ringProduce_ok (hg : Geometry dev) (hr : BlockingRing dev)
    (hfull : ringIsFull dev = false) (u : UserWrite) (hsize : u.count ≤ dev.bufferSize)
    (hu : u.count ≤ u.ubuf.length) :
    (ringProduce dev u).2 = .ok u.count ∧ Geometry (ringProduce dev u).1 ∧
      BlockingRing (ringProduce dev u).1 ∧
      blockingQueue (ringProduce dev u).1 = blockingQueue dev ++ [u.ubuf.take u.count] ∧
      (ringProduce dev u).1.count = dev.count + 1 := by
  have hleft : u.count - u.ubuf.length = 0 := by omega
  have hlt := hr.lt_of_not_full hg hfull
  have hcount := hr.count_nonneg
  have hmem := slot_mem hg (hr.writePos_lt hg)
  have hdata := hg.data_length _ hmem
  have hmsg := take_copyFromUser (dev.slot dev.writePos).data u.ubuf u.count hu (by omega)
  simp only [ringProduce, show (copyFromUser (dev.slot dev.writePos).data u.ubuf u.count).2 = 0
    from hleft, ne_eq, not_true_eq_false, ite_false]
  have hg' := hg.setSlot dev.writePos
    ⟨(copyFromUser (dev.slot dev.writePos).data u.ubuf u.count).1, u.count⟩
    (by simp [hdata]) hsize
  refine ⟨trivial, hg'.of_eq rfl rfl rfl, hr.produced hlt rfl rfl rfl rfl, ?_, trivial⟩
  · have hpush := window_setSlot_push hg dev.readPos dev.count.toNat
      ⟨(copyFromUser (dev.slot dev.writePos).data u.ubuf u.count).1, u.count⟩ hlt
    rw [← hr.writePos_eq] at hpush
    simp only [blockingQueue, Dev.setSlot, Int.toNat_add hcount (show (0 : Int) ≤ 1 by omega)]
    rw [← hmsg]
    exact hpush

theorem head_blockingQueue (hr : BlockingRing dev) (hne : ringIsEmpty dev = false) :
    blockingQueue dev = dev.message dev.readPos ::
      window dev.message dev.numBuffers (dev.readPos + 1) (dev.count.toNat - 1) := by
  have hcount := hr.count_nonneg
  have hpos : dev.count.toNat = (dev.count.toNat - 1) + 1 := by
    have : dev.count ≠ 0 := by simpa [ringIsEmpty] using hne
    omega
  rw [blockingQueue, hpos, window_cons, Nat.mod_eq_of_lt hr.readPos_lt]
  rfl

-- A read that faults changes nothing at all.
theorem ringConsume_fault (u : UserRead)
    (hu : u.room < min u.count (dev.slot dev.readPos).len) :
    ringConsume dev u =
      (dev, .error .EFAULT, (dev.slot dev.readPos).data.take u.room) := by
  have hleft : min u.count (dev.slot dev.readPos).len - u.room ≠ 0 := by omega
  simp only [ringConsume, copyToUser, ne_eq, hleft, not_false_eq_true, ite_true,
    Nat.min_eq_right hu.le]

theorem ringConsume_ok (hg : Geometry dev) (hr : BlockingRing dev)
    (hne : ringIsEmpty dev = false) (u : UserRead)
    (hu : min u.count (dev.slot dev.readPos).len ≤ u.room) :
    (ringConsume dev u).2 = (.ok (min u.count (dev.slot dev.readPos).len),
        (dev.message dev.readPos).take u.count) ∧
      Geometry (ringConsume dev u).1 ∧ BlockingRing (ringConsume dev u).1 ∧
      blockingQueue dev = dev.message dev.readPos :: blockingQueue (ringConsume dev u).1 ∧
      (ringConsume dev u).1.count = dev.count - 1 := by
  have hcount := hr.count_nonneg
  have hpos : dev.count ≠ 0 := by simpa [ringIsEmpty] using hne
  have hleft : min u.count (dev.slot dev.readPos).len - u.room = 0 := by omega
  simp only [ringConsume, copyToUser, hleft, ne_eq, not_true_eq_false, ite_false]
  refine ⟨?_, hg.of_eq rfl rfl rfl, hr.consumed (by omega) rfl rfl rfl rfl, ?_, trivial⟩
  · rw [Nat.min_eq_left hu, Dev.message, Slot.message, List.take_take]
  · rw [head_blockingQueue hr hne]
    congr 1
    have hlen : dev.count.toNat - 1 = (dev.count - 1).toNat := by omega
    rw [hlen]
    exact window_start_congr _ _ (Nat.mod_mod _ _).symm

end BlockingRing

section SpscRing

@[simp] theorem spscConsume_mode (u : UserRead) : (spscConsume dev u).1.mode = dev.mode := by
  unfold spscConsume; dsimp only; split <;> rfl

@[simp] theorem spscProduce_mode (u : UserWrite) : (spscProduce dev u).1.mode = dev.mode := by
  unfold spscProduce; dsimp only; split <;> rfl

@[simp] theorem spscConsume_numBuffers (u : UserRead) :
    (spscConsume dev u).1.numBuffers = dev.numBuffers := by
  unfold spscConsume; dsimp only; split <;> rfl

@[simp] theorem spscProduce_numBuffers (u : UserWrite) :
    (spscProduce dev u).1.numBuffers = dev.numBuffers := by
  unfold spscProduce; dsimp only; split <;> rfl

@[simp] theorem spscConsume_bufferSize (u : UserRead) :
    (spscConsume dev u).1.bufferSize = dev.bufferSize := by
  unfold spscConsume; dsimp only; split <;> rfl

@[simp] theorem spscProduce_bufferSize (u : UserWrite) :
    (spscProduce dev u).1.bufferSize = dev.bufferSize := by
  unfold spscProduce; dsimp only; split <;> rfl

theorem spscIsEmpty_iff : spscIsEmpty dev = true ↔ spscQueue dev = [] := by
  rw [← List.length_eq_zero_iff, spscQueue, length_window, depth_eq_zero_iff]
  simp [spscIsEmpty]

theorem spscIsFull_iff (hr : SpscRing dev) :
    spscIsFull dev = true ↔ (spscQueue dev).length = dev.numBuffers := by
  have hle := hr.depth_le
  rw [spscQueue, length_window]
  simp only [spscIsFull, decide_eq_true_eq]
  unfold depth at hle ⊢
  omega

theorem depth_lt_of_not_full (hfull : spscIsFull dev = false) :
    depth dev.prodIdx dev.consIdx < dev.numBuffers :=
  Nat.lt_of_not_le (of_decide_eq_false hfull)

theorem depth_pos_of_not_empty (hne : spscIsEmpty dev = false) :
    0 < depth dev.prodIdx dev.consIdx :=
  Nat.pos_of_ne_zero fun h => of_decide_eq_false hne ((depth_eq_zero_iff _ _).mp h)

theorem SpscRing.length_le (hr : SpscRing dev) : (spscQueue dev).length ≤ dev.numBuffers := by
  rw [spscQueue, length_window]
  exact hr.depth_le

-- With room left the producer's slot holds no published message.
theorem masked_ne_prodIdx (hpower : dev.numBuffers.isPowerOfTwo) (hnum : dev.numBuffers < 2 ^ 32)
    {index : BitVec 32}
    (hi : depth index dev.consIdx < depth dev.prodIdx dev.consIdx)
    (hroom : depth dev.prodIdx dev.consIdx < dev.numBuffers) :
    dev.masked index ≠ dev.masked dev.prodIdx := by
  have hdvd := dvd_two_pow hpower hnum
  unfold Dev.masked
  rw [mask_eq_mod hpower hnum, mask_eq_mod hpower hnum, head_mod hdvd index dev.consIdx,
    head_mod hdvd dev.prodIdx dev.consIdx]
  exact position_ne _ _ hi (by omega)

theorem SpscRing.dvd (hg : Geometry dev) (hr : SpscRing dev) : dev.numBuffers ∣ 2 ^ 32 :=
  dvd_two_pow hr.power hg.num_lt

theorem SpscRing.masked_eq (hg : Geometry dev) (hr : SpscRing dev) (index : BitVec 32) :
    dev.masked index = index.toNat % dev.numBuffers :=
  mask_eq_mod hr.power hg.num_lt index

theorem SpscRing.masked_lt (hg : Geometry dev) (hr : SpscRing dev) (index : BitVec 32) :
    dev.masked index < dev.numBuffers := by
  rw [hr.masked_eq hg]
  exact Nat.mod_lt _ hg.num_pos

-- The producer's slot is the one right after the published ones.
theorem SpscRing.masked_prodIdx (hg : Geometry dev) (hr : SpscRing dev) :
    dev.masked dev.prodIdx =
      (dev.consIdx.toNat + depth dev.prodIdx dev.consIdx) % dev.numBuffers := by
  rw [hr.masked_eq hg]
  exact head_mod (hr.dvd hg) _ _

-- Publishing the filled slot of the producer appends its message.
theorem spscQueue_publish (hg : Geometry dev) (hr : SpscRing dev)
    (hlt : depth dev.prodIdx dev.consIdx < dev.numBuffers) (next : Dev)
    (hslots : next.slots = dev.slots) (hnum : next.numBuffers = dev.numBuffers)
    (hprod : next.prodIdx = dev.prodIdx + 1) (hcons : next.consIdx = dev.consIdx) :
    spscQueue next = spscQueue dev ++ [dev.message (dev.masked dev.prodIdx)] ∧ SpscRing next := by
  have hd := depth_advance_head dev.prodIdx dev.consIdx 1 (by have := hg.num_lt; omega)
  have hm : next.message = dev.message := by
    funext i
    simp only [Dev.message, Dev.slot, hslots]
  rw [show BitVec.ofNat 32 1 = (1 : BitVec 32) from rfl] at hd
  refine ⟨?_, ⟨hnum ▸ hr.power, ?_⟩⟩
  · rw [spscQueue, hprod, hcons, hnum, hd, window_succ, ← hr.masked_prodIdx hg, hm]
    rfl
  · rw [hprod, hcons, hnum, hd]
    omega

-- Releasing the consumer's slot removes the oldest message.
theorem spscQueue_release (hg : Geometry dev) (hr : SpscRing dev)
    (hpos : 0 < depth dev.prodIdx dev.consIdx) (next : Dev)
    (hslots : next.slots = dev.slots) (hnum : next.numBuffers = dev.numBuffers)
    (hprod : next.prodIdx = dev.prodIdx) (hcons : next.consIdx = dev.consIdx + 1) :
    spscQueue dev = dev.message (dev.masked dev.consIdx) :: spscQueue next ∧ SpscRing next := by
  have hd := depth_advance_tail dev.prodIdx dev.consIdx 1 hpos
  have ha := advance_mod (hr.dvd hg) dev.consIdx 1
  have hle := hr.depth_le
  have hm : next.message = dev.message := by
    funext i
    simp only [Dev.message, Dev.slot, hslots]
  rw [show BitVec.ofNat 32 1 = (1 : BitVec 32) from rfl] at hd ha
  refine ⟨?_, ⟨hnum ▸ hr.power, ?_⟩⟩
  · obtain ⟨rest, hrest⟩ := Nat.exists_eq_add_one_of_ne_zero (Nat.pos_iff_ne_zero.mp hpos)
    rw [spscQueue, spscQueue, hprod, hcons, hnum, hd, hrest, window_cons, ← hr.masked_eq hg, hm,
      Nat.add_sub_cancel]
    congr 1
    exact window_start_congr _ _ ha.symm
  · rw [hprod, hcons, hnum, hd]
    omega

theorem spscProduce_fault (hg : Geometry dev) (hr : SpscRing dev)
    (hfull : spscIsFull dev = false) (u : UserWrite) (hu : u.ubuf.length < u.count) :
    (spscProduce dev u).2 = .error .EFAULT ∧ Geometry (spscProduce dev u).1 ∧
      SpscRing (spscProduce dev u).1 ∧ spscQueue (spscProduce dev u).1 = spscQueue dev := by
  have hleft : u.count - u.ubuf.length ≠ 0 := by omega
  have hlt := depth_lt_of_not_full hfull
  have hmem := slot_mem hg (hr.masked_lt hg dev.prodIdx)
  have hlen := hg.len_le _ hmem
  simp only [spscProduce, copyFromUser, ne_eq, hleft, not_false_eq_true, ite_true]
  refine ⟨trivial, ?_, ⟨hr.power, hr.depth_le⟩, ?_⟩
  · exact hg.setSlot _ _ (by simp [hg.data_length _ hmem]) hlen
  · rw [hr.masked_prodIdx hg]
    exact window_setSlot_off _ _ _ _ (Nat.le_refl _) hlt

theorem spscProduce_ok (hg : Geometry dev) (hr : SpscRing dev)
    (hfull : spscIsFull dev = false) (u : UserWrite) (hsize : u.count ≤ dev.bufferSize)
    (hu : u.count ≤ u.ubuf.length) :
    (spscProduce dev u).2 = .ok u.count ∧ Geometry (spscProduce dev u).1 ∧
      SpscRing (spscProduce dev u).1 ∧
      spscQueue (spscProduce dev u).1 = spscQueue dev ++ [u.ubuf.take u.count] := by
  have hleft : u.count - u.ubuf.length = 0 := by omega
  have hlt := depth_lt_of_not_full hfull
  have hi := hr.masked_lt hg dev.prodIdx
  have hmem := slot_mem hg hi
  have hdata := hg.data_length _ hmem
  have hmsg := take_copyFromUser (dev.slot (dev.masked dev.prodIdx)).data u.ubuf u.count hu
    (by omega)
  let slot : Slot :=
    ⟨(copyFromUser (dev.slot (dev.masked dev.prodIdx)).data u.ubuf u.count).1, u.count⟩
  have hg' : Geometry (dev.setSlot (dev.masked dev.prodIdx) slot) :=
    hg.setSlot _ _ (by simp [slot, hdata]) hsize
  have hr' : SpscRing (dev.setSlot (dev.masked dev.prodIdx) slot) := ⟨hr.power, hr.depth_le⟩
  simp only [spscProduce, show (copyFromUser (dev.slot (dev.masked dev.prodIdx)).data u.ubuf
    u.count).2 = 0 from hleft, ne_eq, not_true_eq_false, ite_false]
  refine ⟨trivial, hg'.of_eq rfl rfl rfl, ?_⟩
  obtain ⟨hq, hring⟩ := spscQueue_publish hg' hr' hlt
    { dev.setSlot (dev.masked dev.prodIdx) slot with prodIdx := dev.prodIdx + 1 }
    rfl rfl rfl rfl
  refine ⟨⟨hring.power, hring.depth_le⟩, hq.trans ?_⟩
  congr 1
  · rw [hr.masked_prodIdx hg]
    exact window_setSlot_off _ _ _ _ (Nat.le_refl _) hlt
  · rw [← hmsg]
    exact congrArg (fun s => [Slot.message s]) (slot_setSlot_self hg hi slot)

theorem spscConsume_fault (u : UserRead)
    (hu : u.room < min u.count (dev.slot (dev.masked dev.consIdx)).len) :
    spscConsume dev u =
      (dev, .error .EFAULT, (dev.slot (dev.masked dev.consIdx)).data.take u.room) := by
  have hleft : min u.count (dev.slot (dev.masked dev.consIdx)).len - u.room ≠ 0 := by omega
  simp only [spscConsume, copyToUser, ne_eq, hleft, not_false_eq_true, ite_true,
    Nat.min_eq_right hu.le]

theorem spscConsume_ok (hg : Geometry dev) (hr : SpscRing dev)
    (hne : spscIsEmpty dev = false) (u : UserRead)
    (hu : min u.count (dev.slot (dev.masked dev.consIdx)).len ≤ u.room) :
    (spscConsume dev u).2 = (.ok (min u.count (dev.slot (dev.masked dev.consIdx)).len),
        (dev.message (dev.masked dev.consIdx)).take u.count) ∧
      Geometry (spscConsume dev u).1 ∧ SpscRing (spscConsume dev u).1 ∧
      spscQueue dev = dev.message (dev.masked dev.consIdx) :: spscQueue (spscConsume dev u).1 := by
  have hleft : min u.count (dev.slot (dev.masked dev.consIdx)).len - u.room = 0 := by omega
  simp only [spscConsume, copyToUser, hleft, ne_eq, not_true_eq_false, ite_false]
  obtain ⟨hq, hring⟩ := spscQueue_release hg hr (depth_pos_of_not_empty hne)
    { dev with consIdx := dev.consIdx + 1 } rfl rfl rfl rfl
  refine ⟨?_, hg.of_eq rfl rfl rfl, ⟨hring.power, hring.depth_le⟩, hq⟩
  rw [Nat.min_eq_left hu, Dev.message, Slot.message, List.take_take]

end SpscRing

section Reset

-- With both index representations reset the ring is empty in either mode.
theorem discipline_of_reset (hn : 1 ≤ dev.numBuffers)
    (hpower : dev.mode = .SPSC → dev.numBuffers.isPowerOfTwo)
    (hread : dev.readPos = 0) (hwrite : dev.writePos = 0) (hcount : dev.count = 0)
    (hindex : dev.prodIdx = dev.consIdx) : Discipline dev ∧ queue dev = [] := by
  unfold Discipline queue
  cases hm : dev.mode with
  | SPSC =>
      refine ⟨⟨hpower hm, ?_⟩, ?_⟩
      · rw [hindex, depth_self]; omega
      · simp only [spscQueue, hindex, depth_self, window_zero]
  | BLOCKING =>
      refine ⟨⟨?_, ?_, ?_, ?_⟩, ?_⟩
      · omega
      · omega
      · omega
      · simp [hread, hwrite, hcount]
      · simp [blockingQueue, hcount]

theorem emptyDev_wellformed (mode : Mode) (n size : Nat) (hn : 1 ≤ n)
    (hn' : n ≤ KBUF_MAX_NUM_BUFFERS) (hs : 1 ≤ size) (hs' : size ≤ KBUF_MAX_BUFFER_SIZE)
    (hpower : mode = .SPSC → n.isPowerOfTwo) : Wellformed (emptyDev mode n size) where
  geometry := emptyDev_geometry mode n size hn hn' hs hs'
  discipline := (discipline_of_reset hn hpower rfl rfl rfl rfl).1

theorem freshDev_wellformed : Wellformed freshDev :=
  emptyDev_wellformed .BLOCKING _ _ (by decide) (by decide) (by decide) (by decide)
    (by intro h; cases h)

theorem resizeCheck_ok {rq : ResizeArg} (h : resizeCheck dev rq = .ok ()) :
    1 ≤ rq.numBuffers ∧ rq.numBuffers ≤ KBUF_MAX_NUM_BUFFERS ∧
      1 ≤ rq.bufferSize ∧ rq.bufferSize ≤ KBUF_MAX_BUFFER_SIZE ∧
      (dev.mode = .SPSC → rq.numBuffers.isPowerOfTwo) := by
  unfold resizeCheck at h
  split at h
  · cases h
  split at h
  · cases h
  split at h
  · cases h
  split at h
  · cases h
  · rename_i hn hs hp
    refine ⟨by omega, by omega, by omega, by omega, ?_⟩
    intro hm
    by_contra hnp
    exact hp ⟨hm, fun hb => hnp ((isPowerOf2_iff _).mp hb)⟩

-- The limits that hold for a RESIZE in either mode.
structure ResizeArg.Valid (rq : ResizeArg) : Prop where
  num_pos : 1 ≤ rq.numBuffers
  num_le : rq.numBuffers ≤ KBUF_MAX_NUM_BUFFERS
  size_pos : 1 ≤ rq.bufferSize
  size_le : rq.bufferSize ≤ KBUF_MAX_BUFFER_SIZE

theorem resizeCheck_valid {rq : ResizeArg} (h : resizeCheck dev rq = .ok ()) :
    rq.Valid := by
  obtain ⟨hn, hn', hs, hs', -⟩ := resizeCheck_ok h
  exact ⟨hn, hn', hs, hs'⟩

end Reset

end Kbuf
