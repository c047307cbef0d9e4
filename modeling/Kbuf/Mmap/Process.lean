import Kbuf.Lib.Words
import Kbuf.Mmap.Pages
import Kbuf.Mmap.Ring

namespace Kbuf

open Interleaving

section Layout

-- The offsets in struct kbuf_mmap_ctrl, whose indices are a cache line each.
def ctrlHead : Nat := 0
def ctrlTail : Nat := ctrlHead + 8 + 7 * 8
def ctrlCapacity : Nat := ctrlTail + 8 + 7 * 8
def ctrlSize : Nat := ctrlCapacity + 8

variable {pageSize : Nat}

-- An aligned 64-bit access to a page, which is one access of the processor.
def Backing.loadWord (mem : Backing pageSize) : KernelAddr → BitVec 64
  | .ctrl off => BitVec.ofNat 64 (Words.load mem.mmapCtrl off 8)
  | .data off => BitVec.ofNat 64 (Words.load mem.mmapData off 8)

def Backing.setCtrl (mem : Backing pageSize) (ctrl : List UInt8)
    (h : ctrl.length = mem.mmapCtrl.length) : Backing pageSize :=
  { mem with mmapCtrl := ctrl, ctrl_length := h.trans mem.ctrl_length }

def Backing.setData (mem : Backing pageSize) (data : List UInt8)
    (h : data.length = mem.mmapData.length) : Backing pageSize :=
  { mem with mmapData := data, data_length := h.trans mem.data_length }

-- A word that does not fit behind `off` is not stored.
def Backing.storeWord (mem : Backing pageSize) (value : BitVec 64) : KernelAddr → Backing pageSize
  | .ctrl off =>
      if h : off + 8 ≤ mem.mmapCtrl.length then
        mem.setCtrl (Words.store mem.mmapCtrl off 8 value.toNat) (Words.length_store h _)
      else mem
  | .data off =>
      if h : off + 8 ≤ mem.mmapData.length then
        mem.setData (Words.store mem.mmapData off 8 value.toNat) (Words.length_store h _)
      else mem

-- What kbuf_mmap_dev_alloc leaves in the control page that vmalloc_user has cleared.
def freshCtrl (pageSize : Nat) : List UInt8 :=
  Words.store (Words.store (Words.store (List.replicate pageSize 0) ctrlHead 8 0) ctrlTail 8 0)
    ctrlCapacity 4 KBUF_MMAP_CAPACITY

theorem length_freshCtrl (h : ctrlSize ≤ pageSize) : (freshCtrl pageSize).length = pageSize := by
  simp only [ctrlSize, ctrlCapacity, ctrlTail, ctrlHead] at h
  rw [freshCtrl, Words.length_store, Words.length_store, Words.length_store, List.length_replicate]
  all_goals simp only [ctrlCapacity, ctrlTail, ctrlHead]
  · rw [List.length_replicate]
    omega
  · rw [Words.length_store (by rw [List.length_replicate]; omega), List.length_replicate]
    omega
  · rw [Words.length_store, Words.length_store, List.length_replicate]
    · omega
    · rw [List.length_replicate]
      omega
    · rw [Words.length_store (by rw [List.length_replicate]; omega), List.length_replicate]
      omega

def freshBacking (pageSize : Nat) (h : ctrlSize ≤ pageSize) : Backing pageSize where
  mmapCtrl := freshCtrl pageSize
  mmapData := List.replicate KBUF_MMAP_CAPACITY 0
  ctrl_length := length_freshCtrl h
  data_length := List.length_replicate

end Layout

section Mapping

-- A mapping of the device: its area, and the pages that faults have put into it so far.
structure Mapping where
  vma : Vma
  table : Nat → Option Page

inductive Killed where
  | SIGSEGV
  | SIGBUS
  deriving DecidableEq, Repr

-- The area that kbuf_map_open asks for, at the address that the kernel chooses
def mapOpenVma (pageSize addr : Nat) : Vma :=
  ⟨addr, addr + (pageSize + 2 * KBUF_MMAP_CAPACITY), 0⟩

variable (pageSize : Nat)

-- Where an address leads by the page table.
def Mapping.walk (map : Mapping) (addr : Nat) : Option KernelAddr :=
  if map.vma.vmStart ≤ addr ∧ addr < map.vma.vmEnd then
    (map.table (map.vma.pgoff pageSize addr)).map
      (Page.addr pageSize ((addr - map.vma.vmStart) % pageSize))
  else none

-- The kernel's answer to an access that the page table has no page for.
def Mapping.fault (map : Mapping) (addr : Nat) : Except Killed Mapping :=
  if map.vma.vmStart ≤ addr ∧ addr < map.vma.vmEnd then
    let pgoff := map.vma.pgoff pageSize addr
    match kbufVmFault pageSize pgoff with
    | none => .error .SIGBUS
    | some page => .ok { map with table := Function.update map.table pgoff (some page) }
  else .error .SIGSEGV

end Mapping

section Addresses

variable (pageSize : Nat) (vma : Vma)

-- The addresses of `m->ctrl->head` and `m->ctrl->tail`
def headAddr : Nat := vma.vmStart + ctrlHead
def tailAddr : Nat := vma.vmStart + ctrlTail

-- The address that the next step of a call reads or writes.
def MapWritePc.address : MapWritePc → Nat
  | .loadHead => headAddr vma
  | .loadTail _ => tailAddr vma
  | .copy head n i =>
      if i < n then mapData pageSize vma + (mapOffset head + i) else headAddr vma

def MapReadPc.address : MapReadPc → Nat
  | .loadTail => tailAddr vma
  | .loadHead _ => headAddr vma
  | .copy tail len out =>
      if out.length < len then mapData pageSize vma + (mapOffset tail + out.length)
      else tailAddr vma

def MapResetPc.address : MapResetPc → Nat
  | .storeHead => headAddr vma
  | .storeTail => tailAddr vma

def MapLocal.address : MapLocal → Option Nat
  | .write _ pc => some (pc.address pageSize vma)
  | .read _ pc => some (pc.address pageSize vma)
  | .reset pc => some (pc.address vma)
  | .idle | .written _ | .got _ | .resetDone => none

end Addresses

section Steps

variable {pageSize : Nat}

-- The memory behind all mappings of a device. `accepted` and `returned` are the bytes that
-- went through so far.
structure MappedDev (pageSize : Nat) where
  mem : Backing pageSize
  accepted : List UInt8
  returned : List UInt8

-- A process with its mapping and the place it has come to in libkbuf.
structure MapUser where
  mapping : Option Mapping
  here : MapLocal
  killed : Option Killed

inductive MapUserChoice where
  | mapOpen (addr : Nat)
  | mapClose
  | start (request : MapRequest)
  | go

-- kbuf_map_write, where the access of the step goes to `addr`.
def mappedWriteStep (buf : List UInt8) (dev : MappedDev pageSize) (addr : KernelAddr) :
    MapWritePc → MappedDev pageSize × MapLocal
  | .loadHead => (dev, .write buf (.loadTail (dev.mem.loadWord addr)))
  | .loadTail head =>
      let space := (BitVec.ofNat 64 KBUF_MMAP_CAPACITY - (head - dev.mem.loadWord addr)).toNat
      let n := if buf.length > space then space else buf.length
      if n = 0 then (dev, .written 0) else (dev, .write buf (.copy head n 0))
  | .copy head n i =>
      if i < n then
        ({ dev with mem := dev.mem.store (buf.getD i 0) addr }, .write buf (.copy head n (i + 1)))
      else
        ({ dev with
            mem := dev.mem.storeWord (head + BitVec.ofNat 64 n) addr
            accepted := dev.accepted ++ buf.take n }, .written n)

-- kbuf_map_read
def mappedReadStep (n : Nat) (dev : MappedDev pageSize) (addr : KernelAddr) :
    MapReadPc → MappedDev pageSize × MapLocal
  | .loadTail => (dev, .read n (.loadHead (dev.mem.loadWord addr)))
  | .loadHead tail =>
      let avail := (dev.mem.loadWord addr - tail).toNat
      let len := if n > avail then avail else n
      if len = 0 then (dev, .got []) else (dev, .read n (.copy tail len []))
  | .copy tail len out =>
      if out.length < len then
        (dev, .read n (.copy tail len (out ++ [dev.mem.load addr])))
      else
        ({ dev with
            mem := dev.mem.storeWord (tail + BitVec.ofNat 64 len) addr
            returned := dev.returned ++ out }, .got out)

-- kbuf_map_reset
def mappedResetStep (dev : MappedDev pageSize) (addr : KernelAddr) :
    MapResetPc → MappedDev pageSize × MapLocal
  | .storeHead => ({ dev with mem := dev.mem.storeWord 0 addr }, .reset .storeTail)
  | .storeTail => ({ dev with mem := dev.mem.storeWord 0 addr }, .resetDone)

def MapLocal.access (dev : MappedDev pageSize) (addr : KernelAddr) :
    MapLocal → MappedDev pageSize × MapLocal
  | .write buf pc => mappedWriteStep buf dev addr pc
  | .read n pc => mappedReadStep n dev addr pc
  | .reset pc => mappedResetStep dev addr pc
  | here => (dev, here)

-- One access, or the page fault that it gives rise to, after which it is tried again.
def accessStep (user : MapUser) (dev : MappedDev pageSize) (map : Mapping) (addr : Nat) :
    MappedDev pageSize × MapUser :=
  match map.walk pageSize addr with
  | some kaddr =>
      let (dev', next) := user.here.access dev kaddr
      (dev', { user with here := next })
  | none =>
      match map.fault pageSize addr with
      | .ok map' => (dev, { user with mapping := some map' })
      | .error signal => (dev, { user with killed := some signal })

def MapLocal.busy : MapLocal → Bool
  | .write .. | .read .. | .reset _ => true
  | .idle | .written _ | .got _ | .resetDone => false

-- A step inside a call. Without a mapping `m->ctrl` points nowhere.
def goStep (user : MapUser) (dev : MappedDev pageSize) : Option (MappedDev pageSize × MapUser) :=
  match user.mapping with
  | none => some (dev, { user with killed := some .SIGSEGV })
  | some map => (user.here.address pageSize map.vma).map (accessStep user dev map)

-- What kbuf_map_open makes of the answer of mmap.
def MapUser.opened (user : MapUser) (vma : Vma) : Except Errno Unit → MapUser
  | .ok () => { user with mapping := some ⟨vma, fun _ => none⟩ }
  | .error _ => user

-- What a process does between calls.
def restStep (user : MapUser) (dev : MappedDev pageSize) :
    MapUserChoice → Option (MappedDev pageSize × MapUser)
  | .mapOpen addr =>
      let vma := mapOpenVma pageSize addr
      some (dev, user.opened vma (kbufMmap pageSize vma))
  | .mapClose => some (dev, { user with mapping := none })
  | .start request => some (dev, { user with here := request.enter })
  | .go => none

-- Processes that share a device through mappings of their own.
def mappedKbuf (pageSize : Nat) : Program (MappedDev pageSize) MapUser MapUserChoice :=
  fun _ choice user dev =>
    if user.killed.isSome then none
    else if user.here.busy then
      match choice with
      | .go => goStep user dev
      | _ => none
    else restStep user dev choice

abbrev MappedSystem (pageSize : Nat) := State (MappedDev pageSize) MapUser

def mappedBoot (h : ctrlSize ≤ pageSize) : MappedSystem pageSize where
  shared := ⟨freshBacking pageSize h, [], []⟩
  locals := fun _ => ⟨none, .idle, none⟩

end Steps

end Kbuf
