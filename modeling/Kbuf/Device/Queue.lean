import Kbuf.Calls
import Kbuf.Lib.Circular

namespace Kbuf

def Slot.message (slot : Slot) : List UInt8 := slot.data.take slot.len

def Dev.message (dev : Dev) (index : Nat) : List UInt8 := (dev.slot index).message

-- The messages between `readPos` and `writePos`, oldest first.
def blockingQueue (dev : Dev) : List (List UInt8) :=
  Circular.window dev.message dev.numBuffers dev.readPos dev.count.toNat

-- The messages between the two free-running indices, oldest first.
def spscQueue (dev : Dev) : List (List UInt8) :=
  Circular.window dev.message dev.numBuffers dev.consIdx.toNat
    (FreeRunning.depth dev.prodIdx dev.consIdx)

def queue (dev : Dev) : List (List UInt8) :=
  match dev.mode with
  | .SPSC => spscQueue dev
  | .BLOCKING => blockingQueue dev

structure Geometry (dev : Dev) : Prop where
  num_pos : 1 ≤ dev.numBuffers
  num_le : dev.numBuffers ≤ KBUF_MAX_NUM_BUFFERS
  size_pos : 1 ≤ dev.bufferSize
  size_le : dev.bufferSize ≤ KBUF_MAX_BUFFER_SIZE
  slots_length : dev.slots.length = dev.numBuffers
  data_length : ∀ slot ∈ dev.slots, slot.data.length = dev.bufferSize
  len_le : ∀ slot ∈ dev.slots, slot.len ≤ dev.bufferSize

structure BlockingRing (dev : Dev) : Prop where
  count_nonneg : 0 ≤ dev.count
  count_le : dev.count ≤ dev.numBuffers
  readPos_lt : dev.readPos < dev.numBuffers
  writePos_eq : dev.writePos = (dev.readPos + dev.count.toNat) % dev.numBuffers

structure SpscRing (dev : Dev) : Prop where
  power : dev.numBuffers.isPowerOfTwo
  depth_le : FreeRunning.depth dev.prodIdx dev.consIdx ≤ dev.numBuffers

-- The discipline of the current mode. The other mode's indices are unconstrained.
def Discipline (dev : Dev) : Prop :=
  match dev.mode with
  | .SPSC => SpscRing dev
  | .BLOCKING => BlockingRing dev

structure Wellformed (dev : Dev) : Prop where
  geometry : Geometry dev
  discipline : Discipline dev

theorem isPowerOf2_iff (n : Nat) : isPowerOf2 n = true ↔ n.isPowerOfTwo := by
  rw [← Nat.ne_zero_and_sub_one_eq_zero_iff_isPowerOfTwo]
  simp [isPowerOf2]

theorem toUnsigned_of_bounds {value : Int} (h : 0 ≤ value) (hlt : value < 2 ^ 32) :
    toUnsigned value = value.toNat := by
  rw [toUnsigned, Int.emod_eq_of_lt h hlt]

section Slots

variable {dev : Dev}

theorem slot_mem (h : Geometry dev) {index : Nat} (hi : index < dev.numBuffers) :
    dev.slot index ∈ dev.slots := by
  have hi' : index < dev.slots.length := by rw [h.slots_length]; exact hi
  simp [Dev.slot, hi']

theorem slot_setSlot_self (h : Geometry dev) {index : Nat} (hi : index < dev.numBuffers)
    (slot : Slot) : (dev.setSlot index slot).slot index = slot := by
  have hi' : index < dev.slots.length := by rw [h.slots_length]; exact hi
  simp [Dev.slot, Dev.setSlot, hi']

theorem slot_setSlot_of_ne {index other : Nat} (hne : other ≠ index) (slot : Slot) :
    (dev.setSlot index slot).slot other = dev.slot other := by
  simp [Dev.slot, Dev.setSlot, List.getElem?_set_ne (Ne.symm hne)]

theorem Geometry.setSlot (h : Geometry dev) (index : Nat) (slot : Slot)
    (hdata : slot.data.length = dev.bufferSize) (hlen : slot.len ≤ dev.bufferSize) :
    Geometry (dev.setSlot index slot) where
  num_pos := h.num_pos
  num_le := h.num_le
  size_pos := h.size_pos
  size_le := h.size_le
  slots_length := by simpa [Dev.setSlot] using h.slots_length
  data_length other hm := by
    rcases List.mem_or_eq_of_mem_set hm with hm | rfl
    · exact h.data_length other hm
    · exact hdata
  len_le other hm := by
    rcases List.mem_or_eq_of_mem_set hm with hm | rfl
    · exact h.len_le other hm
    · exact hlen

-- Only the slot array and its dimensions matter.
theorem Geometry.of_eq {other : Dev} (h : Geometry dev) (hs : other.slots = dev.slots)
    (hn : other.numBuffers = dev.numBuffers) (hb : other.bufferSize = dev.bufferSize) :
    Geometry other where
  num_pos := hn ▸ h.num_pos
  num_le := hn ▸ h.num_le
  size_pos := hb ▸ h.size_pos
  size_le := hb ▸ h.size_le
  slots_length := by rw [hs, hn]; exact h.slots_length
  data_length := by rw [hs, hb]; exact h.data_length
  len_le := by rw [hs, hb]; exact h.len_le

theorem Geometry.num_lt (h : Geometry dev) : dev.numBuffers < 2 ^ 32 := by
  have := h.num_le
  simp only [KBUF_MAX_NUM_BUFFERS] at this
  omega

end Slots

section Copies

@[simp] theorem length_overwrite (dst src : List UInt8) :
    (overwrite dst src).length = dst.length := by
  simp only [overwrite, List.length_append, List.length_take, List.length_drop]
  omega

theorem take_overwrite (dst src : List UInt8) (h : src.length ≤ dst.length) :
    (overwrite dst src).take src.length = src := by
  rw [overwrite, List.take_of_length_le h, List.take_left]

@[simp] theorem length_copyFromUser (dst ubuf : List UInt8) (n : Nat) :
    (copyFromUser dst ubuf n).1.length = dst.length := by
  simp [copyFromUser]

theorem take_copyFromUser (dst ubuf : List UInt8) (n : Nat) (hn : n ≤ ubuf.length)
    (hdst : n ≤ dst.length) : (copyFromUser dst ubuf n).1.take n = ubuf.take n := by
  have hlen : (ubuf.take n).length = n := by simp [hn]
  have htake := take_overwrite dst (ubuf.take n) (by omega)
  rw [hlen] at htake
  simpa only [copyFromUser, Nat.sub_eq_zero_of_le hn, List.replicate_zero, List.append_nil]
    using htake

theorem clamp_count (u : UserWrite) (size : Nat) : (u.clamp size).count = min u.count size := by
  simp only [UserWrite.clamp]
  split <;> omega

end Copies

end Kbuf
