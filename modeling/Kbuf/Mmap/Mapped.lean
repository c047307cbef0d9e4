import Kbuf.Mmap.Process
import Kbuf.Mmap.Stream

namespace Kbuf

open Interleaving FreeRunning

section Ring

variable {pageSize : Nat}

-- The ring of libkbuf as it lies in the memory of the device.
def MappedDev.ring (dev : MappedDev pageSize) : MapRing where
  cap := KBUF_MMAP_CAPACITY
  head := dev.mem.loadWord (.ctrl ctrlHead)
  tail := dev.mem.loadWord (.ctrl ctrlTail)
  data := dev.mem.mmapData
  accepted := dev.accepted
  returned := dev.returned

-- The field that kbuf_mmap_dev_alloc has set.
def Backing.capacity (mem : Backing pageSize) : Nat := Words.load mem.mmapCtrl ctrlCapacity 4

theorem loadWord_of_load {mem : Backing pageSize} {off : Nat} {word : BitVec 64}
    (h : Words.load mem.mmapCtrl off 8 = word.toNat % 256 ^ 8) :
    mem.loadWord (.ctrl off) = word := by
  apply BitVec.eq_of_toNat_eq
  simp only [Backing.loadWord, BitVec.toNat_ofNat, h]
  have hlt := word.isLt
  omega

section Words

variable (hpage : ctrlSize ≤ pageSize) (mem : Backing pageSize) {off : Nat}
  (hoff : off + 8 ≤ ctrlSize) (value : BitVec 64)

include hpage hoff

theorem ctrl_fits : off + 8 ≤ mem.mmapCtrl.length := by
  rw [mem.ctrl_length]
  omega

theorem storeWord_ctrl :
    (mem.storeWord value (.ctrl off)).mmapCtrl = Words.store mem.mmapCtrl off 8 value.toNat ∧
    (mem.storeWord value (.ctrl off)).mmapData = mem.mmapData := by
  rw [Backing.storeWord, dif_pos (ctrl_fits hpage mem hoff)]
  exact ⟨rfl, rfl⟩

theorem loadWord_storeWord_self :
    (mem.storeWord value (.ctrl off)).loadWord (.ctrl off) = value := by
  apply loadWord_of_load
  rw [(storeWord_ctrl hpage mem hoff value).1]
  exact Words.load_store_self (ctrl_fits hpage mem hoff) value.toNat

theorem load_storeWord_of_disjoint {other n : Nat}
    (hdisjoint : other + n ≤ off ∨ off + 8 ≤ other) :
    Words.load (mem.storeWord value (.ctrl off)).mmapCtrl other n =
      Words.load mem.mmapCtrl other n := by
  rw [(storeWord_ctrl hpage mem hoff value).1]
  exact Words.load_store_of_disjoint (ctrl_fits hpage mem hoff) value.toNat hdisjoint

end Words

section Stores

variable (hpage : ctrlSize ≤ pageSize) (dev : MappedDev pageSize) (value : BitVec 64)
  (bytes : List UInt8)

include hpage

-- The indices lie apart from each other and from the capacity.
theorem ring_storeHead :
    MappedDev.ring { dev with
      mem := dev.mem.storeWord value (.ctrl ctrlHead)
      accepted := bytes } = { dev.ring with head := value, accepted := bytes } := by
  have hfits : ctrlHead + 8 ≤ ctrlSize := by decide
  have htail := load_storeWord_of_disjoint hpage dev.mem hfits value
    (show ctrlTail + 8 ≤ ctrlHead ∨ ctrlHead + 8 ≤ ctrlTail by decide)
  have hword : (dev.mem.storeWord value (.ctrl ctrlHead)).loadWord (.ctrl ctrlTail) =
      dev.mem.loadWord (.ctrl ctrlTail) := by
    rw [Backing.loadWord, Backing.loadWord, htail]
  simp only [MappedDev.ring, loadWord_storeWord_self hpage dev.mem hfits,
    (storeWord_ctrl hpage dev.mem hfits value).2, hword]

theorem ring_storeTail :
    MappedDev.ring { dev with
      mem := dev.mem.storeWord value (.ctrl ctrlTail)
      returned := bytes } = { dev.ring with tail := value, returned := bytes } := by
  have hfits : ctrlTail + 8 ≤ ctrlSize := by decide
  have hhead := load_storeWord_of_disjoint hpage dev.mem hfits value
    (show ctrlHead + 8 ≤ ctrlTail ∨ ctrlTail + 8 ≤ ctrlHead by decide)
  have hword : (dev.mem.storeWord value (.ctrl ctrlTail)).loadWord (.ctrl ctrlHead) =
      dev.mem.loadWord (.ctrl ctrlHead) := by
    rw [Backing.loadWord, Backing.loadWord, hhead]
  simp only [MappedDev.ring, loadWord_storeWord_self hpage dev.mem hfits,
    (storeWord_ctrl hpage dev.mem hfits value).2, hword]

end Stores

end Ring

section Access

variable {pageSize : Nat} {dev : MappedDev pageSize}

-- The address that a step works on in the memory of the device.
def MapWritePc.target : MapWritePc → KernelAddr
  | .loadHead => .ctrl ctrlHead
  | .loadTail _ => .ctrl ctrlTail
  | .copy head n i =>
      if i < n then .data ((mapOffset head + i) % KBUF_MMAP_CAPACITY) else .ctrl ctrlHead

def MapReadPc.target : MapReadPc → KernelAddr
  | .loadTail => .ctrl ctrlTail
  | .loadHead _ => .ctrl ctrlHead
  | .copy tail len out =>
      if out.length < len then .data ((mapOffset tail + out.length) % KBUF_MMAP_CAPACITY)
      else .ctrl ctrlTail

-- Neither branch touches the memory.
theorem ite_ring (dev : MappedDev pageSize) (n : Nat) (nothing next : MapLocal) :
    (if n = 0 then (dev.ring, nothing) else (dev.ring, next)) =
      ((if n = 0 then (dev, nothing) else (dev, next)).1.ring,
        (if n = 0 then (dev, nothing) else (dev, next)).2) := by
  split <;> rfl

-- An access that reaches its target is a step of the ring.
theorem mappedWriteStep_ring (hpage : ctrlSize ≤ pageSize) (buf : List UInt8) (pc : MapWritePc) :
    mapWriteStep buf dev.ring pc =
      ((mappedWriteStep buf dev pc.target pc).1.ring,
        (mappedWriteStep buf dev pc.target pc).2) := by
  cases pc with
  | loadHead => rfl
  | loadTail head => exact ite_ring dev _ _ _
  | copy head n i =>
      simp only [mapWriteStep, mappedWriteStep, MapWritePc.target]
      by_cases hi : i < n
      · simp only [if_pos hi]
        rfl
      · simp only [if_neg hi]
        rw [ring_storeHead hpage]
        rfl

theorem mappedReadStep_ring (hpage : ctrlSize ≤ pageSize) (n : Nat) (pc : MapReadPc) :
    mapReadStep n dev.ring pc =
      ((mappedReadStep n dev pc.target pc).1.ring, (mappedReadStep n dev pc.target pc).2) := by
  cases pc with
  | loadTail => rfl
  | loadHead tail => exact ite_ring dev _ _ _
  | copy tail len out =>
      simp only [mapReadStep, mappedReadStep, MapReadPc.target]
      by_cases hout : out.length < len
      · simp only [if_pos hout]
        rfl
      · simp only [if_neg hout]
        rw [ring_storeTail hpage]
        rfl

end Access

section Mappings

variable {pageSize : Nat} {map map' : Mapping} {addr : Nat} {kaddr : KernelAddr}

-- kbuf_mmap has accepted the area, and the pages in it are those that kbuf_vm_fault gave.
structure Mapping.Ok (pageSize : Nat) (map : Mapping) : Prop where
  accepted : kbufMmap pageSize map.vma = .ok ()
  table : ∀ pgoff page, map.table pgoff = some page → kbufVmFault pageSize pgoff = some page

-- kbuf_map_open asks for what kbuf_mmap accepts.
theorem mapOpenVma_accepted (pageSize addr : Nat) :
    kbufMmap pageSize (mapOpenVma pageSize addr) = .ok () := by
  refine kbufMmap_ok_iff.mpr ⟨rfl, ?_⟩
  simp only [mapOpenVma]
  omega

theorem mapOpenVma_ok (pageSize addr : Nat) :
    Mapping.Ok pageSize ⟨mapOpenVma pageSize addr, fun _ => none⟩ :=
  ⟨mapOpenVma_accepted pageSize addr, fun _ _ h => by cases h⟩

theorem resolve_ctrl {vma : Vma} (hdvd : pageSize ∣ KBUF_MMAP_CAPACITY)
    (hmap : kbufMmap pageSize vma = .ok ()) {off : Nat} (hoff : off < pageSize) :
    resolve pageSize vma (vma.vmStart + off) = some (.ctrl off) := by
  obtain ⟨hpgoff, hsize⟩ := kbufMmap_ok_iff.mp hmap
  have hinside : vma.vmStart ≤ vma.vmStart + off ∧ vma.vmStart + off < vma.vmEnd := by omega
  have hzero : vma.pgoff pageSize (vma.vmStart + off) = 0 := by
    rw [Vma.pgoff, hpgoff, Nat.add_sub_cancel_left, Nat.div_eq_of_lt hoff]
  rw [resolve, if_pos hinside, hzero, kbufVmFault_zero hdvd, Nat.add_sub_cancel_left,
    Nat.mod_eq_of_lt hoff]
  rfl

-- The page table never leads elsewhere than the fault handler.
theorem Mapping.Ok.walk (h : map.Ok pageSize) (hwalk : map.walk pageSize addr = some kaddr) :
    resolve pageSize map.vma addr = some kaddr := by
  unfold Mapping.walk at hwalk
  split at hwalk
  · rename_i hinside
    obtain ⟨page, hpage, rfl⟩ := Option.map_eq_some_iff.mp hwalk
    rw [resolve, if_pos hinside, h.table _ page hpage, Option.map_some]
  · cases hwalk

theorem Mapping.Ok.fault (h : map.Ok pageSize)
    (hresolve : resolve pageSize map.vma addr = some kaddr) :
    ∃ map', map.fault pageSize addr = .ok map' ∧ map'.Ok pageSize := by
  unfold resolve at hresolve
  split at hresolve
  · rename_i hinside
    obtain ⟨page, hpage, -⟩ := Option.map_eq_some_iff.mp hresolve
    refine ⟨{ map with
        table := Function.update map.table (map.vma.pgoff pageSize addr) (some page) },
      ?_, h.accepted, fun pgoff other hother => ?_⟩
    · simp only [Mapping.fault, if_pos hinside, hpage]
    · dsimp only at hother
      by_cases hp : pgoff = map.vma.pgoff pageSize addr
      · subst hp
        rw [Function.update_self] at hother
        rw [hpage, hother]
      · rw [Function.update_of_ne hp] at hother
        exact h.table pgoff other hother
  · cases hresolve

end Mappings

section Targets

variable {pageSize : Nat} {vma : Vma} {producer consumer p : Nat} {ring : MapRing}

-- What the invariant of the stream says of the sizes keeps every access inside the mapping.
theorem MapWriterOk.resolves (hdvd : pageSize ∣ KBUF_MMAP_CAPACITY) (hpage : ctrlSize ≤ pageSize)
    (hmap : kbufMmap pageSize vma = .ok ()) (hcap : ring.cap = KBUF_MMAP_CAPACITY)
    {buf : List UInt8} {pc : MapWritePc} (h : MapWriterOk ring buf pc) :
    resolve pageSize vma (pc.address pageSize vma) = some pc.target := by
  have hhead : ctrlHead < pageSize := Nat.lt_of_lt_of_le (by decide) hpage
  have htail : ctrlTail < pageSize := Nat.lt_of_lt_of_le (by decide) hpage
  cases pc with
  | loadHead => exact resolve_ctrl hdvd hmap hhead
  | loadTail head => exact resolve_ctrl hdvd hmap htail
  | copy head n i =>
      obtain ⟨-, -, hroom, -, -⟩ := h
      simp only [MapWritePc.address, MapWritePc.target]
      by_cases hi : i < n
      · have hoff := mapOffset_lt head
        rw [if_pos hi, if_pos hi, resolve_data hdvd hmap (by omega)]
      · rw [if_neg hi, if_neg hi]
        exact resolve_ctrl hdvd hmap hhead

theorem MapReaderOk.resolves (hdvd : pageSize ∣ KBUF_MMAP_CAPACITY) (hpage : ctrlSize ≤ pageSize)
    (hmap : kbufMmap pageSize vma = .ok ()) (hcap : ring.cap = KBUF_MMAP_CAPACITY)
    (hring : StreamOk ring) {pc : MapReadPc} (h : MapReaderOk ring pc) :
    resolve pageSize vma (pc.address pageSize vma) = some pc.target := by
  have hhead : ctrlHead < pageSize := Nat.lt_of_lt_of_le (by decide) hpage
  have htail : ctrlTail < pageSize := Nat.lt_of_lt_of_le (by decide) hpage
  cases pc with
  | loadTail => exact resolve_ctrl hdvd hmap htail
  | loadHead tail => exact resolve_ctrl hdvd hmap hhead
  | copy tail len out =>
      obtain ⟨-, hlen, -, -⟩ := h
      have hdepth := hring.depth_le
      simp only [MapReadPc.address, MapReadPc.target]
      by_cases hout : out.length < len
      · have hoff := mapOffset_lt tail
        rw [if_pos hout, if_pos hout, resolve_data hdvd hmap (by omega)]
      · rw [if_neg hout, if_neg hout]
        exact resolve_ctrl hdvd hmap htail

end Targets

end Kbuf
