import Kbuf.Dyn.Registry
import Kbuf.Lifecycle.Slots

namespace Kbuf

open Ledger

section Resources

-- What a struct kbuf_dev holds. A static device embeds its cdev; a dynamic one has
-- it from cdev_alloc.
inductive Part where
  | slots
  | slotData (i : Nat)
  | mmapCtrl
  | mmapData
  | cdevAlloc
  | cdev
  | node
  deriving DecidableEq

-- What the module obtains from the rest of the kernel.
inductive Resource where
  | devices
  | region (count : Nat)
  | kbufClass
  | part (dev : DevPtr) (part : Part)
  | procEntry
  | debugRoot
  | debugDir (i : Nat)
  | importPdev
  | ctlMisc
  | ida (off : Nat)
  | kbufDev (ptr : Nat)
  deriving DecidableEq

-- Which requests the rest of the kernel turns down, and with which error.
structure Kernel where
  fails : Resource → Option Errno
  dmaMask : Option Errno

def Kernel.get (k : Kernel) (r : Resource) : Routine Resource Errno := .acquire (k.fails r) r

-- An allocator says no more than that there is no memory.
def Kernel.alloc (k : Kernel) (r : Resource) : Routine Resource Errno :=
  .acquire ((k.fails r).map fun _ => .ENOMEM) r

theorem builds_get (k : Kernel) (r : Resource) : (k.get r).Builds [] [r] := builds_acquire ..

theorem builds_alloc (k : Kernel) (r : Resource) : (k.alloc r).Builds [] [r] := builds_acquire ..

end Resources

section Slots

variable (k : Kernel) (dev : DevPtr) (n : Nat)

-- The outcomes of the allocations in one kbuf_alloc_slots
def Kernel.kmalloc : Nat → Bool
  | 0 => (k.fails (.part dev .slots)).isNone
  | i + 1 => (k.fails (.part dev (.slotData i))).isNone

def slotsPlan : List Resource := slotBlocks (.part dev .slots) (fun i => .part dev (.slotData i)) n

def allocDevSlots : Routine Resource Errno :=
  kbufAllocSlots (.part dev .slots) (fun i => .part dev (.slotData i)) (k.kmalloc dev) n

def freeDevSlots : List Resource :=
  kbufFreeSlots (.part dev .slots) (fun i => .part dev (.slotData i)) n

theorem freeDevSlots_perm : (freeDevSlots dev n).Perm (slotsPlan dev n) := kbufFreeSlots_perm ..

theorem allocDevSlots_builds : (allocDevSlots k dev n).Builds [] (slotsPlan dev n) :=
  kbufAllocSlots_builds ..

end Slots

section Mmap

variable (k : Kernel) (dev : DevPtr)

def mmapPlan : List Resource := [.part dev .mmapCtrl, .part dev .mmapData]

def kbufMmapDevAlloc : Routine Resource Errno :=
  (k.alloc (.part dev .mmapCtrl)).orGoto [] <|
  (k.alloc (.part dev .mmapData)).orGoto [.part dev .mmapCtrl] .done

def kbufMmapDevFree : List Resource := [.part dev .mmapData, .part dev .mmapCtrl]

theorem kbufMmapDevFree_perm : (kbufMmapDevFree dev).Perm (mmapPlan dev) := .swap ..

theorem kbufMmapDevAlloc_builds : (kbufMmapDevAlloc k dev).Builds [] (mmapPlan dev) :=
  (builds_alloc k _).orGoto (fun _ _ => .refl _) <|
  (builds_alloc k _).orGoto (fun _ _ => .refl _) (builds_done _)

end Mmap

section Static

variable (k : Kernel) (i : Nat)

def staticPlan : List Resource :=
  slotsPlan (.static i) KBUF_DEFAULT_NUM_BUFFERS ++ (mmapPlan (.static i) ++
    ([.part (.static i) .cdev] ++ ([.part (.static i) .node] ++ [])))

-- One round of the loop of kbuf_init
def createStatic : Routine Resource Errno :=
  let dev := .static i
  (allocDevSlots k dev KBUF_DEFAULT_NUM_BUFFERS).orGoto [] <|
  (kbufMmapDevAlloc k dev).orGoto (freeDevSlots dev KBUF_DEFAULT_NUM_BUFFERS) <|
  (k.get (.part dev .cdev)).orGoto
    (kbufMmapDevFree dev ++ freeDevSlots dev KBUF_DEFAULT_NUM_BUFFERS) <|
  (k.get (.part dev .node)).orGoto
    ([.part dev .cdev] ++ kbufMmapDevFree dev ++ freeDevSlots dev KBUF_DEFAULT_NUM_BUFFERS)
    .done

-- One round of the loop of kbuf_teardown_devices
def teardownStatic : List Resource :=
  let dev := .static i
  [.part dev .node] ++ [.part dev .cdev] ++ kbufMmapDevFree dev ++
    freeDevSlots dev KBUF_DEFAULT_NUM_BUFFERS

-- Both release in the order of the code; what counts is what they release.
theorem teardownStatic_perm : (teardownStatic i).Perm (staticPlan i) := by
  refine List.perm_iff_count.mpr fun r => ?_
  have hslots := (freeDevSlots_perm (.static i) KBUF_DEFAULT_NUM_BUFFERS).count_eq r
  have hmmap := (kbufMmapDevFree_perm (.static i)).count_eq r
  simp only [teardownStatic, staticPlan, List.count_append, List.count_nil]
  omega

theorem createStatic_builds : (createStatic k i).Builds [] (staticPlan i) := by
  have hslots := freeDevSlots_perm (.static i) KBUF_DEFAULT_NUM_BUFFERS
  have hmmap := kbufMmapDevFree_perm (.static i)
  refine (allocDevSlots_builds ..).orGoto (fun _ _ => .refl _) ?_
  refine (kbufMmapDevAlloc_builds ..).orGoto (fun _ _ => hslots) ?_
  refine (builds_get ..).orGoto (fun _ _ => ?_) ?_
  · exact (hmmap.append hslots).trans List.perm_append_comm
  refine (builds_get ..).orGoto (fun _ _ => ?_) (builds_done _)
  · rw [List.append_assoc]
    exact List.perm_append_comm.trans
      (((hmmap.append hslots).trans List.perm_append_comm).append_right _)

end Static

section Nodup

theorem slotsPlan_nodup (dev : DevPtr) (n : Nat) : (slotsPlan dev n).Nodup := by
  refine slotBlocks_nodup _ _ n (fun i j hij => ?_) nofun
  cases hij
  rfl

theorem slotsPlan_append_nodup {dev : DevPtr} {n : Nat} {rest : List Resource}
    (hrest : rest.Nodup) (hslots : .part dev .slots ∉ rest)
    (hdata : ∀ i, .part dev (.slotData i) ∉ rest) : (slotsPlan dev n ++ rest).Nodup := by
  refine List.nodup_append'.mpr ⟨slotsPlan_nodup dev n, hrest, fun r hr hmem => ?_⟩
  rcases List.mem_append.mp hr with hr | hr
  · obtain rfl := List.mem_singleton.mp hr
    exact hslots hmem
  · obtain ⟨i, -, rfl⟩ := List.mem_map.mp hr
    exact hdata i hmem

theorem staticPlan_nodup (i : Nat) : (staticPlan i).Nodup :=
  slotsPlan_append_nodup (by simp [mmapPlan]) (by simp [mmapPlan]) (by simp [mmapPlan])

theorem eq_part_of_mem_staticPlan {i : Nat} {r : Resource} (h : r ∈ staticPlan i) :
    ∃ part, r = .part (.static i) part := by
  simp [staticPlan, slotsPlan, slotBlocks, mmapPlan] at h
  grind

end Nodup

end Kbuf
