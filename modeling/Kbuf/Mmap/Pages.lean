import Kbuf.Device
import Kbuf.Lib.FreeRunning
import Kbuf.Lib.SplitCopy

namespace Kbuf

open Circular FreeRunning

def KBUF_MMAP_CAPACITY : Nat := 64 * 1024

-- The two buffers that kbuf_mmap_dev_alloc gives a device: the control page and
-- the data ring.
structure Backing (pageSize : Nat) where
  mmapCtrl : List UInt8
  mmapData : List UInt8
  ctrl_length : mmapCtrl.length = pageSize
  data_length : mmapData.length = KBUF_MMAP_CAPACITY

-- An address inside one of the two buffers.
inductive KernelAddr where
  | ctrl (off : Nat)
  | data (off : Nat)
  deriving DecidableEq, Repr

inductive Page where
  | ctrl
  | data (index : Nat)
  deriving DecidableEq, Repr

-- Byte `off` of a page, in the buffer that the page belongs to.
def Page.addr (pageSize off : Nat) : Page → KernelAddr
  | .ctrl => .ctrl off
  | .data index => .data (index * pageSize + off)

-- struct vm_area_struct, in bytes except for the page offset
structure Vma where
  vmStart : Nat
  vmEnd : Nat
  vmPgoff : Nat
  deriving DecidableEq, Repr

section Kernel

-- The page behind an address, none outside the two buffers.
def vmallocToPage (pageSize : Nat) : KernelAddr → Option Page
  | .ctrl off => if off < pageSize then some .ctrl else none
  | .data off => if off < KBUF_MMAP_CAPACITY then some (.data (off / pageSize)) else none

-- kbuf_vm_fault: the page that is mapped in, none for VM_FAULT_SIGBUS.
def kbufVmFault (pageSize pgoff : Nat) : Option Page :=
  let dataPages := KBUF_MMAP_CAPACITY / pageSize
  if pgoff = 0 then vmallocToPage pageSize (.ctrl 0)
  else vmallocToPage pageSize (.data ((pgoff - 1) % dataPages * pageSize))

def kbufMmap (pageSize : Nat) (vma : Vma) : Except Errno Unit :=
  let size := vma.vmEnd - vma.vmStart
  let expected := pageSize + 2 * KBUF_MMAP_CAPACITY
  if vma.vmPgoff ≠ 0 then .error .EINVAL
  else if size ≠ expected then .error .EINVAL
  else .ok ()

end Kernel

section User

-- The page offset that an access to `addr` faults with.
def Vma.pgoff (vma : Vma) (pageSize addr : Nat) : Nat :=
  vma.vmPgoff + (addr - vma.vmStart) / pageSize

-- Where a user address leads, once its page has been faulted in.
def resolve (pageSize : Nat) (vma : Vma) (addr : Nat) : Option KernelAddr :=
  if vma.vmStart ≤ addr ∧ addr < vma.vmEnd then
    (kbufVmFault pageSize (vma.pgoff pageSize addr)).map
      (Page.addr pageSize ((addr - vma.vmStart) % pageSize))
  else none

variable {pageSize : Nat}

def Backing.load (mem : Backing pageSize) : KernelAddr → UInt8
  | .ctrl off => mem.mmapCtrl.getD off 0
  | .data off => mem.mmapData.getD off 0

def Backing.store (mem : Backing pageSize) (value : UInt8) : KernelAddr → Backing pageSize
  | .ctrl off =>
      { mem with
        mmapCtrl := mem.mmapCtrl.set off value
        ctrl_length := by rw [List.length_set, mem.ctrl_length] }
  | .data off =>
      { mem with
        mmapData := mem.mmapData.set off value
        data_length := by rw [List.length_set, mem.data_length] }

-- The address of `m->data`, which kbuf_map_open puts one page behind the base.
def mapData (pageSize : Nat) (vma : Vma) : Nat := vma.vmStart + pageSize

-- memcpy(dst, bytes, n) through the mapping, none when it leaves the mapping.
def memcpyTo (vma : Vma) (mem : Backing pageSize) (dst : Nat) :
    List UInt8 → Option (Backing pageSize)
  | [] => some mem
  | value :: bytes =>
      match resolve pageSize vma dst with
      | none => none
      | some addr => memcpyTo vma (mem.store value addr) (dst + 1) bytes

-- memcpy(buf, src, n) through the mapping
def memcpyFrom (vma : Vma) (mem : Backing pageSize) (src : Nat) : Nat → Option (List UInt8)
  | 0 => some []
  | n + 1 =>
      match resolve pageSize vma src with
      | none => none
      | some addr => (memcpyFrom vma mem (src + 1) n).map (mem.load addr :: ·)

-- `head & (cap - 1)` and `tail & (cap - 1)`
def mapOffset (index : BitVec 64) : Nat :=
  (index &&& (BitVec.ofNat 64 KBUF_MMAP_CAPACITY - 1)).toNat

end User

section Faults

variable {pageSize : Nat} {vma : Vma}

theorem capacity_isPowerOfTwo : KBUF_MMAP_CAPACITY.isPowerOfTwo := ⟨16, rfl⟩

theorem pageSize_pos (hdvd : pageSize ∣ KBUF_MMAP_CAPACITY) : 0 < pageSize :=
  Nat.pos_of_dvd_of_pos hdvd (by decide)

theorem mapOffset_lt (index : BitVec 64) : mapOffset index < KBUF_MMAP_CAPACITY :=
  mask_lt (by decide) (by decide) index

-- An accepted mapping starts at the control page and covers the data twice.
theorem kbufMmap_ok_iff : kbufMmap pageSize vma = .ok () ↔
    vma.vmPgoff = 0 ∧ vma.vmEnd - vma.vmStart = pageSize + 2 * KBUF_MMAP_CAPACITY := by
  unfold kbufMmap
  dsimp only
  split
  · rename_i hoff
    simp [hoff]
  split
  · rename_i hoff hsize
    simp [hsize]
  · rename_i hoff hsize
    simp [not_not.mp hoff, not_not.mp hsize]

-- Every page of the ring, whatever the index it is reached by, ends inside it.
theorem page_fits (hdvd : pageSize ∣ KBUF_MMAP_CAPACITY) (index : Nat) :
    index % (KBUF_MMAP_CAPACITY / pageSize) * pageSize + pageSize ≤ KBUF_MMAP_CAPACITY := by
  have hpages : 0 < KBUF_MMAP_CAPACITY / pageSize :=
    Nat.div_pos (Nat.le_of_dvd (by decide) hdvd) (pageSize_pos hdvd)
  calc index % (KBUF_MMAP_CAPACITY / pageSize) * pageSize + pageSize
      = (index % (KBUF_MMAP_CAPACITY / pageSize) + 1) * pageSize := (Nat.succ_mul _ _).symm
    _ ≤ KBUF_MMAP_CAPACITY / pageSize * pageSize :=
        Nat.mul_le_mul_right _ (Nat.mod_lt _ hpages)
    _ = KBUF_MMAP_CAPACITY := Nat.div_mul_cancel hdvd

theorem kbufVmFault_zero (hdvd : pageSize ∣ KBUF_MMAP_CAPACITY) :
    kbufVmFault pageSize 0 = some .ctrl := by
  simp [kbufVmFault, vmallocToPage, pageSize_pos hdvd]

theorem kbufVmFault_succ (hdvd : pageSize ∣ KBUF_MMAP_CAPACITY) (pgoff : Nat) :
    kbufVmFault pageSize (pgoff + 1) =
      some (.data (pgoff % (KBUF_MMAP_CAPACITY / pageSize))) := by
  have hpos := pageSize_pos hdvd
  have hfits := page_fits hdvd pgoff
  have hstart : pgoff % (KBUF_MMAP_CAPACITY / pageSize) * pageSize < KBUF_MMAP_CAPACITY := by omega
  simp only [kbufVmFault, vmallocToPage, Nat.add_one_ne_zero, ite_false, Nat.add_sub_cancel,
    hstart, ite_true, Nat.mul_div_cancel _ hpos]

-- Page arithmetic modulo the number of pages is byte arithmetic modulo the capacity.
theorem page_byte_eq (hdvd : pageSize ∣ KBUF_MMAP_CAPACITY) (x : Nat) :
    x / pageSize % (KBUF_MMAP_CAPACITY / pageSize) * pageSize + x % pageSize =
      x % KBUF_MMAP_CAPACITY := by
  obtain ⟨pages, hcap⟩ := hdvd
  have hpos : 0 < pageSize := pageSize_pos ⟨pages, hcap⟩
  rw [hcap, Nat.mul_div_cancel_left _ hpos, Nat.mod_mul]
  rw [Nat.mul_comm, Nat.add_comm]

theorem resolve_data (hdvd : pageSize ∣ KBUF_MMAP_CAPACITY)
    (hmap : kbufMmap pageSize vma = .ok ()) {x : Nat} (hx : x < 2 * KBUF_MMAP_CAPACITY) :
    resolve pageSize vma (mapData pageSize vma + x) = some (.data (x % KBUF_MMAP_CAPACITY)) := by
  obtain ⟨hoff, hsize⟩ := kbufMmap_ok_iff.mp hmap
  have hpos := pageSize_pos hdvd
  have hinside : vma.vmStart ≤ mapData pageSize vma + x ∧
      mapData pageSize vma + x < vma.vmEnd := by
    unfold mapData
    omega
  have hdist : mapData pageSize vma + x - vma.vmStart = x + pageSize := by
    unfold mapData
    omega
  have hpgoff : vma.pgoff pageSize (mapData pageSize vma + x) = x / pageSize + 1 := by
    rw [Vma.pgoff, hoff, hdist, Nat.add_div_right _ hpos, Nat.zero_add]
  rw [resolve, if_pos hinside, hpgoff, kbufVmFault_succ hdvd, hdist, Nat.add_mod_right,
    Option.map_some, Page.addr, page_byte_eq hdvd]

end Faults

section Copies

variable {pageSize : Nat} {vma : Vma}

-- The copy walks through the mapping, the stores go round the ring.
theorem memcpyTo_eq (hdvd : pageSize ∣ KBUF_MMAP_CAPACITY) (hmap : kbufMmap pageSize vma = .ok ())
    (mem : Backing pageSize) (x : Nat) (bytes : List UInt8)
    (hx : x + bytes.length ≤ 2 * KBUF_MMAP_CAPACITY) :
    ∃ after, memcpyTo vma mem (mapData pageSize vma + x) bytes = some after ∧
      after.mmapCtrl = mem.mmapCtrl ∧ after.mmapData = store mem.mmapData x bytes := by
  induction bytes generalizing mem x with
  | nil => exact ⟨mem, rfl, rfl, rfl⟩
  | cons value bytes ih =>
      rw [List.length_cons] at hx
      obtain ⟨after, hcopy, hctrl, hdata⟩ :=
        ih (mem.store value (.data (x % KBUF_MMAP_CAPACITY))) (x + 1) (by omega)
      refine ⟨after, ?_, hctrl, ?_⟩
      · rw [memcpyTo, resolve_data hdvd hmap (by omega)]
        exact hcopy
      · rw [hdata, Circular.store, mem.data_length]
        rfl

theorem memcpyFrom_eq (hdvd : pageSize ∣ KBUF_MMAP_CAPACITY)
    (hmap : kbufMmap pageSize vma = .ok ()) (mem : Backing pageSize) (x n : Nat)
    (hx : x + n ≤ 2 * KBUF_MMAP_CAPACITY) :
    memcpyFrom vma mem (mapData pageSize vma + x) n =
      some (window (fun position => mem.mmapData.getD position 0) KBUF_MMAP_CAPACITY x n) := by
  induction n generalizing x with
  | zero => rfl
  | succ n ih =>
      have hrest := ih (x + 1) (by omega)
      rw [← Nat.add_assoc] at hrest
      simp only [memcpyFrom, resolve_data hdvd hmap (show x < 2 * KBUF_MMAP_CAPACITY by omega),
        hrest, Option.map_some, window_cons, Backing.load]

theorem mapOffset_add_mod (index : BitVec 64) (i : Nat) :
    (mapOffset index + i) % KBUF_MMAP_CAPACITY = (index.toNat + i) % KBUF_MMAP_CAPACITY := by
  rw [mapOffset, mask_eq_mod capacity_isPowerOfTwo (by decide), Nat.mod_add_mod]

-- Every accepted mapping shows the ring twice, and one contiguous copy through it
-- does what the copy split at the end of the ring does.
theorem double_mapping_refines_split_copy (pageSize : Nat) (vma : Vma)
    (hdvd : pageSize ∣ KBUF_MMAP_CAPACITY) (hmap : kbufMmap pageSize vma = .ok ()) :
    kbufVmFault pageSize 0 = some .ctrl ∧
    (∀ pgoff, 0 < pgoff → pgoff * pageSize < vma.vmEnd - vma.vmStart →
      ∃ page, kbufVmFault pageSize pgoff = some (.data page) ∧
        page * pageSize + pageSize ≤ KBUF_MMAP_CAPACITY) ∧
    (∀ x, x < 2 * KBUF_MMAP_CAPACITY →
      resolve pageSize vma (mapData pageSize vma + x) = some (.data (x % KBUF_MMAP_CAPACITY))) ∧
    ∀ (mem : Backing pageSize) (index : BitVec 64) (n : Nat), n ≤ KBUF_MMAP_CAPACITY →
      mapOffset index + n ≤ 2 * KBUF_MMAP_CAPACITY ∧
      memcpyFrom vma mem (mapData pageSize vma + mapOffset index) n =
        some (splitLoad mem.mmapData (mapOffset index) n) ∧
      ∀ bytes : List UInt8, bytes.length = n →
        ∃ after, memcpyTo vma mem (mapData pageSize vma + mapOffset index) bytes = some after ∧
          after.mmapCtrl = mem.mmapCtrl ∧
          after.mmapData = splitStore mem.mmapData (mapOffset index) bytes ∧
          ∀ position, (∀ i < n, (index.toNat + i) % KBUF_MMAP_CAPACITY ≠ position) →
            after.mmapData[position]? = mem.mmapData[position]? := by
  refine ⟨kbufVmFault_zero hdvd, ?_, fun x hx => resolve_data hdvd hmap hx, ?_⟩
  · intro pgoff hpos _
    obtain ⟨index, rfl⟩ := Nat.exists_eq_add_one_of_ne_zero (Nat.pos_iff_ne_zero.mp hpos)
    exact ⟨_, kbufVmFault_succ hdvd index, page_fits hdvd index⟩
  · intro mem index n hn
    have hoff := mapOffset_lt index
    have hcap := mem.data_length
    refine ⟨by omega, ?_, ?_⟩
    · rw [memcpyFrom_eq hdvd hmap mem _ n (by omega), ← hcap,
        window_eq_splitLoad _ _ _ _ (by omega) (by omega)]
    · rintro bytes rfl
      obtain ⟨after, hcopy, hctrl, hdata⟩ :=
        memcpyTo_eq hdvd hmap mem (mapOffset index) bytes (by omega)
      refine ⟨after, hcopy, hctrl, ?_, ?_⟩
      · rw [hdata, store_eq_splitStore _ _ _ (by omega) (by omega)]
      · intro position hp
        rw [hdata]
        apply getElem?_store_of_ne
        intro i hi
        rw [hcap, mapOffset_add_mod]
        exact hp i hi

-- The default page size, mapped at address 0x7000.
def sampleVma : Vma := ⟨0x7000, 0x7000 + 4096 + 2 * KBUF_MMAP_CAPACITY, 0⟩

theorem double_mapping_refines_split_copy_4096 :
    kbufMmap 4096 sampleVma = .ok () ∧ kbufVmFault 4096 0 = some .ctrl ∧
      resolve 4096 sampleVma (mapData 4096 sampleVma + KBUF_MMAP_CAPACITY) = some (.data 0) := by
  have hmap : kbufMmap 4096 sampleVma = .ok () := by decide
  obtain ⟨hctrl, -, hresolve, -⟩ :=
    double_mapping_refines_split_copy 4096 sampleVma (by decide) hmap
  exact ⟨hmap, hctrl, hresolve KBUF_MMAP_CAPACITY (by decide)⟩

end Copies

end Kbuf
