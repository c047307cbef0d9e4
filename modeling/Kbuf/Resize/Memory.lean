import Kbuf.Device.Queue
import Kbuf.Lifecycle.Slots
import Kbuf.Resize.Arrays
import Mathlib.Data.Finset.Union

namespace Kbuf

open Interleaving Ledger

section Machine

-- One piece of slot memory: the array at `ptr`, or the buffer of one of its slots.
inductive Block where
  | array (ptr : Nat)
  | data (ptr i : Nat)
  deriving DecidableEq

-- The driver together with the calls of the allocator so far. No step reads them.
structure SlabWorld where
  world : World
  memory : List (Op Block)

-- A process and the local `old_n` of kbuf_ioc_resize.
structure SlabLocal where
  here : Local
  oldN : Nat

-- The arguments of the kbuf_free_slots that comes next: -EBUSY frees the new array with
-- the length asked for, success the old one with `old_n`.
def SlabLocal.frees (l : SlabLocal) : Option (Nat × Nat) :=
  match l.here with
  | .resize rq (.freeNew ptr) => some (ptr, rq.numBuffers)
  | .resize _ (.freeOld old) => some (old, l.oldN)
  | _ => none

def Local.allocates : Local → Option ResizeArg
  | .resize rq .alloc => some rq
  | _ => none

-- kbuf_alloc_slots of a resize. An address that has been freed may be handed out again.
def World.allocBlocks (w : World) (rq : ResizeArg) : Routine Block Errno :=
  kbufAllocSlots (.array w.nextPtr) (.data w.nextPtr) rq.kmalloc rq.numBuffers

-- What the next step asks of the allocator.
def SlabLocal.memoryOps (l : SlabLocal) (w : World) : List (Op Block) :=
  match l.here.allocates, l.frees with
  | some rq, _ => (w.allocBlocks rq).trace
  | none, some (ptr, n) => releases (kbufFreeSlots (.array ptr) (.data ptr) n)
  | none, none => []

-- `old_n = dev->num_buffers`
def SlabLocal.nextOldN (l : SlabLocal) (w : World) : Nat :=
  match l.here with
  | .resize _ (.swap _) => w.dev.numBuffers
  | _ => l.oldN

def slabDriver : Program SlabWorld SlabLocal Choice := fun me choice l s =>
  (driver me choice l.here s.world).map fun (w, next) =>
    (⟨w, s.memory ++ l.memoryOps s.world⟩, ⟨next, l.nextOldN s.world⟩)

abbrev SlabSystem := State SlabWorld SlabLocal

def SlabSystem.driver (s : SlabSystem) : System := s.map SlabWorld.world SlabLocal.here

def slabBoot (dev : Dev) : SlabSystem where
  shared :=
    { world := (boot dev).shared
      memory := (kbufAllocSlots (.array 0) (.data 0) (fun _ => true) dev.numBuffers).trace }
  locals := fun _ => ⟨.idle, 0⟩

theorem slab_move {s t : SlabSystem} {act : Act Choice} (h : step slabDriver s act = some t) :
    ∃ w next, Move act.pid s.shared.world act.choice (s.locals act.pid).here w next ∧
      t = s.put act.pid
        (⟨w, s.shared.memory ++ (s.locals act.pid).memoryOps s.shared.world⟩,
          ⟨next, (s.locals act.pid).nextOldN s.shared.world⟩) := by
  obtain ⟨next, hp, rfl⟩ := step_eq_some h
  obtain ⟨⟨w, here⟩, hd, rfl⟩ := Option.map_eq_some_iff.mp hp
  exact ⟨w, here, driver_move hd, rfl⟩

-- The steps are those of the driver.
theorem slab_step_driver {s t : SlabSystem} {act : Act Choice}
    (h : step slabDriver s act = some t) : step driver s.driver act = some t.driver := by
  obtain ⟨next, hp, rfl⟩ := step_eq_some h
  obtain ⟨⟨w, here⟩, hd, rfl⟩ := Option.map_eq_some_iff.mp hp
  rw [SlabSystem.driver, SlabSystem.driver, State.map_put]
  exact congrArg (Option.map (s.driver.put act.pid)) hd

end Machine

section Blocks

variable {w w' : World}

-- The slot memory that is in use: each live array with a buffer for each of its slots.
def World.blocks (w : World) : Finset Block :=
  w.live.toFinset.biUnion fun ptr =>
    (slotBlocks (.array ptr) (.data ptr) (w.array ptr).length).toFinset

def Block.ptr : Block → Nat
  | .array ptr => ptr
  | .data ptr _ => ptr

-- Whether an array of `n` slots has such a block
def Block.within (n : Nat) : Block → Prop
  | .array _ => True
  | .data _ i => i < n

theorem mem_slotBlocks {b : Block} {ptr n : Nat} :
    b ∈ slotBlocks (.array ptr) (.data ptr) n ↔ b.ptr = ptr ∧ b.within n := by
  cases b with
  | array => simp [slotBlocks, Block.ptr, Block.within]
  | data => simp [slotBlocks, Block.ptr, Block.within, and_comm, eq_comm]

theorem mem_blocks {b : Block} :
    b ∈ w.blocks ↔ b.ptr ∈ w.live ∧ b.within (w.sizes b.ptr).length := by
  simp only [World.blocks, Finset.mem_biUnion, List.mem_toFinset, mem_slotBlocks, World.sizes,
    List.length_map]
  constructor
  · rintro ⟨ptr, hmem, rfl, hin⟩
    exact ⟨hmem, hin⟩
  · rintro ⟨hmem, hin⟩
    exact ⟨b.ptr, hmem, rfl, hin⟩

theorem ptrBlocks_nodup (ptr n : Nat) : (slotBlocks (Block.array ptr) (.data ptr) n).Nodup :=
  slotBlocks_nodup _ _ n (fun _ _ h => (Block.data.inj h).2) nofun

theorem blocks_same (hlive : w'.live = w.live) (hsizes : ∀ ptr, w'.sizes ptr = w.sizes ptr) :
    w'.blocks = w.blocks := by
  ext b
  rw [mem_blocks, mem_blocks, hlive, hsizes]

theorem blocks_alloc {n : Nat} (hlive : w'.live = w.nextPtr :: w.live)
    (hlt : ∀ ptr ∈ w.live, ptr < w.nextPtr)
    (hsizes : ∀ ptr, ptr < w.nextPtr → w'.sizes ptr = w.sizes ptr)
    (hnew : (w'.sizes w.nextPtr).length = n) :
    w'.blocks = w.blocks ∪ (slotBlocks (.array w.nextPtr) (.data w.nextPtr) n).toFinset := by
  ext b
  rw [Finset.mem_union, List.mem_toFinset, mem_slotBlocks, mem_blocks, mem_blocks, hlive,
    List.mem_cons]
  by_cases hb : b.ptr = w.nextPtr
  · have hnot : w.nextPtr ∉ w.live := fun hmem => Nat.lt_irrefl _ (hlt _ hmem)
    simp [hb, hnew, hnot]
  · constructor
    · rintro ⟨heq | hmem, hin⟩
      · exact absurd heq hb
      · exact Or.inl ⟨hmem, by rwa [hsizes _ (hlt _ hmem)] at hin⟩
    · rintro (⟨hmem, hin⟩ | ⟨heq, -⟩)
      · exact ⟨Or.inr hmem, by rwa [hsizes _ (hlt _ hmem)]⟩
      · exact absurd heq hb

theorem blocks_free {ptr : Nat} (hlive : w'.live = w.live.erase ptr) (hnodup : w.live.Nodup)
    (hsizes : ∀ ptr, w'.sizes ptr = w.sizes ptr) :
    w'.blocks =
      w.blocks \ (slotBlocks (.array ptr) (.data ptr) (w.sizes ptr).length).toFinset := by
  ext b
  rw [Finset.mem_sdiff, List.mem_toFinset, mem_slotBlocks, mem_blocks, mem_blocks, hlive,
    hnodup.mem_erase_iff, hsizes]
  by_cases hb : b.ptr = ptr
  · simp [hb]
  · simp [hb]

end Blocks

section Steps

variable {w w' : World} {l : SlabLocal} {next : Local} {me : Nat}

-- The array of a resize has the geometry asked for until it is installed; the one that
-- it replaced has the length remembered.
def SlabLocal.Holds (w : World) (l : SlabLocal) : Prop :=
  match l.here with
  | .resize rq (.lock ptr) | .resize rq (.swap ptr) | .resize rq (.unlockBusy ptr)
  | .resize rq (.freeNew ptr) => w.sizes ptr = List.replicate rq.numBuffers rq.bufferSize
  | .resize _ (.unlock old) | .resize _ (.freeOld old) => (w.sizes old).length = l.oldN
  | _ => True

theorem SlabLocal.Holds.transport (h : l.Holds w)
    (hsizes : ∀ ptr, l.here.owned = some ptr → w'.sizes ptr = w.sizes ptr) : l.Holds w' := by
  obtain ⟨here, oldN⟩ := l
  cases here with
  | resize rq pc =>
      cases pc with
      | lock ptr | swap ptr | unlockBusy ptr | freeNew ptr | unlock ptr | freeOld ptr =>
          simp only [SlabLocal.Holds] at h ⊢
          rw [hsizes ptr rfl]
          exact h
      | check | alloc | wake => trivial
  | _ => trivial

theorem holds_of_owned_none (h : l.here.owned = none) : l.Holds w := by
  obtain ⟨here, oldN⟩ := l
  cases here with
  | resize rq pc => cases pc <;> trivial
  | _ => trivial

theorem memoryOps_eq_nil (h : ∀ rq pc, l.here ≠ .resize rq pc) : l.memoryOps w = [] := by
  obtain ⟨here, oldN⟩ := l
  cases here with
  | resize rq pc => exact absurd rfl (h rq pc)
  | _ => rfl

-- Each kbuf_free_slots is called with the length of the array it frees.
theorem SlabLocal.Holds.frees (h : l.Holds w) {ptr n : Nat} (hfrees : l.frees = some (ptr, n)) :
    l.here.owned = some ptr ∧ (w.sizes ptr).length = n := by
  obtain ⟨here, oldN⟩ := l
  cases here with
  | resize rq pc =>
      cases pc with
      | freeNew =>
          obtain ⟨rfl, rfl⟩ := Prod.mk.inj (Option.some.inj hfrees)
          exact ⟨rfl, by rw [show w.sizes _ = _ from h, List.length_replicate]⟩
      | freeOld =>
          obtain ⟨rfl, rfl⟩ := Prod.mk.inj (Option.some.inj hfrees)
          exact ⟨rfl, h⟩
      | _ => cases hfrees
  | _ => cases hfrees

-- What a step does to the arrays and what it asks of the allocator go together.
structure SlabStep (w : World) (l : SlabLocal) (w' : World) (next : SlabLocal) : Prop where
  device : w'.sizes w'.slotsPtr = List.replicate w'.dev.numBuffers w'.dev.bufferSize
  holds : next.Holds w'
  frame : ∀ ptr, ptr < w.nextPtr → w'.sizes ptr = w.sizes ptr
  memory : replay w.blocks (l.memoryOps w) = some w'.blocks

variable {oldN : Nat}
  (hdevice : w.sizes w.slotsPtr = List.replicate w.dev.numBuffers w.dev.bufferSize)

include hdevice

theorem SameArrays.slab_step (h : SameArrays w w') (hnext : (⟨next, oldN⟩ : SlabLocal).Holds w)
    (hops : l.memoryOps w = []) : SlabStep w l w' ⟨next, oldN⟩ where
  device := by rw [h.sizes, h.slotsPtr, h.numBuffers, h.bufferSize, hdevice]
  holds := hnext.transport fun ptr _ => h.sizes ptr
  frame ptr _ := h.sizes ptr
  memory := by rw [hops, blocks_same h.live h.sizes]; rfl

section Free

variable (hnodup : w.live.Nodup) (howned : ∀ ptr, l.here.owned = some ptr → ptr ∈ w.live)

include hnodup howned

-- kbuf_free_slots
theorem SlabLocal.Holds.free_step {ptr n : Nat} (hheld : l.Holds w)
    (hfrees : l.frees = some (ptr, n)) (hallocates : l.here.allocates = none)
    (hnext : next.owned = none) : SlabStep w l (w.free ptr) ⟨next, oldN⟩ := by
  obtain ⟨hown, hlength⟩ := hheld.frees hfrees
  refine ⟨hdevice, holds_of_owned_none hnext, fun _ _ => rfl, ?_⟩
  have hperm := kbufFreeSlots_perm (Block.array ptr) (.data ptr) n
  have hin : ∀ b ∈ kbufFreeSlots (Block.array ptr) (.data ptr) n, b ∈ w.blocks := by
    intro b hb
    obtain ⟨hb, hwithin⟩ := mem_slotBlocks.mp (hperm.mem_iff.mp hb)
    rw [mem_blocks, hb, hlength]
    exact ⟨howned ptr hown, hwithin⟩
  have hblocks : (w.free ptr).blocks = _ := blocks_free rfl hnodup fun _ => rfl
  rw [SlabLocal.memoryOps, hallocates, hfrees, hblocks, hlength]
  dsimp only
  rw [replay_releases (hperm.nodup_iff.mpr (ptrBlocks_nodup ptr n)) hin,
    List.toFinset_eq_of_perm _ _ hperm]

end Free

section Alloc

variable (hlt : ∀ ptr ∈ w.live, ptr < w.nextPtr) (hptr : w.slotsPtr < w.nextPtr) {rq : ResizeArg}

omit hdevice

include hlt

theorem allocBlocks_fresh {b : Block} (hb : b ∈ acquired (w.allocBlocks rq).trace) :
    b ∉ w.blocks := by
  have hplan := (kbufAllocSlots_builds ..).within.subset hb
  obtain ⟨hb, -⟩ := mem_slotBlocks.mp hplan
  rw [mem_blocks, hb]
  exact fun ⟨hmem, _⟩ => Nat.lt_irrefl _ (hlt _ hmem)

-- kbuf_alloc_slots has failed and freed what it had allocated.
theorem nomem_replay (h : allocSlots rq.kmalloc rq.numBuffers rq.bufferSize = none) :
    replay w.blocks (w.allocBlocks rq).trace = some w.blocks := by
  cases hresult : (w.allocBlocks rq).result with
  | ok =>
      have hsome := (kbufAllocSlots_ok rq.bufferSize).mp hresult
      rw [h] at hsome
      cases hsome
  | error e =>
      have hbuilds : (w.allocBlocks rq).Builds [] _ := kbufAllocSlots_builds ..
      rw [hbuilds.replay_of_error (ptrBlocks_nodup ..) nofun (fun _ => allocBlocks_fresh hlt)
        hresult, List.toFinset_nil, Finset.sdiff_empty]

include hptr hdevice

theorem alloc_step {slots : List Slot}
    (h : allocSlots rq.kmalloc rq.numBuffers rq.bufferSize = some slots) :
    SlabStep w ⟨.resize rq .alloc, oldN⟩ (w.alloc slots)
      ⟨.resize rq (.lock w.nextPtr), oldN⟩ := by
  have hnew := sizes_alloc_new hptr h
  have hold (ptr : Nat) (hlower : ptr < w.nextPtr) := sizes_alloc_of_lt slots hptr hlower
  have hresult : (w.allocBlocks rq).result = .ok () :=
    (kbufAllocSlots_ok rq.bufferSize).mpr (Option.isSome_of_eq_some h)
  have hbuilds : (w.allocBlocks rq).Builds [] _ := kbufAllocSlots_builds ..
  refine ⟨(hold _ hptr).trans hdevice, hnew, hold, ?_⟩
  rw [blocks_alloc rfl hlt hold (by rw [hnew, List.length_replicate])]
  have hnone : ∀ q ∈ ([] : List Block), q ∈ w.blocks := fun _ hq => absurd hq List.not_mem_nil
  exact hbuilds.replay_of_ok (ptrBlocks_nodup ..) hnone (fun _ => allocBlocks_fresh hlt) hresult

end Alloc

variable (hlt : ∀ ptr ∈ w.live, ptr < w.nextPtr) (hptr : w.slotsPtr < w.nextPtr)
  (hnodup : w.live.Nodup) (howned : ∀ ptr, l.here.owned = some ptr → ptr ∈ w.live)

include hlt hptr hnodup howned

theorem ResizeMove.slab_step {rq : ResizeArg} {pc : ResizePc} {after : Next ResizePc}
    (hhere : l.here = .resize rq pc) (hheld : l.Holds w) (h : ResizeMove rq me w pc w' after) :
    SlabStep w l w' ⟨after.lift (.resize rq), l.nextOldN w⟩ := by
  obtain ⟨here, oldN⟩ := l
  obtain rfl : here = .resize rq pc := hhere
  have hsame : SameArrays w w := ⟨rfl, rfl, rfl, fun _ => rfl, rfl, rfl⟩
  cases h with
  | reject | accept => exact hsame.slab_step hdevice trivial rfl
  | nomem hnone => exact ⟨hdevice, trivial, fun _ _ => rfl, nomem_replay hlt hnone⟩
  | alloc hsome => exact alloc_step hdevice hlt hptr hsome
  | busy => exact hsame.slab_step hdevice hheld rfl
  | lock | unlockBusy | unlock =>
      exact SameArrays.slab_step hdevice ⟨rfl, rfl, rfl, fun _ => rfl, rfl, rfl⟩ hheld rfl
  | @swap ptr ho =>
      have hsizes (other : Nat) := sizes_install (w.dev.resized rq (w.array ptr)) ptr other rfl
      refine ⟨(hsizes ptr).trans hheld, ?_, fun other _ => hsizes other, ?_⟩
      · refine (congrArg List.length ((hsizes _).trans hdevice)).trans ?_
        exact List.length_replicate
      · have hblocks : (w.install (w.dev.resized rq (w.array ptr)) ptr).blocks = w.blocks :=
          blocks_same rfl hsizes
        rw [hblocks]
        rfl
  | freeNew | freeOld => exact hheld.free_step hdevice hnodup howned rfl rfl rfl
  | wake =>
      exact SameArrays.slab_step hdevice ⟨rfl, rfl, rfl, fun _ => rfl, rfl, rfl⟩ trivial rfl

theorem Move.slab_step {choice : Choice} (hheld : l.Holds w)
    (h : Move me w choice l.here w' next) : SlabStep w l w' ⟨next, l.nextOldN w⟩ := by
  by_cases hresize : ∃ rq pc, l.here = .resize rq pc
  · obtain ⟨rq, pc, hhere⟩ := hresize
    rw [hhere] at h
    cases h with
    | enter h => rcases h with h | ⟨_, h⟩ <;> cases h
    | resize h => exact h.slab_step hdevice hlt hptr hnodup howned hhere hheld
  · have hne : ∀ rq pc, l.here ≠ .resize rq pc := fun rq pc hhere => hresize ⟨rq, pc, hhere⟩
    refine (h.sameArrays hne).slab_step hdevice (holds_of_owned_none ?_) (memoryOps_eq_nil hne)
    exact h.owned_of_not_resize hne

end Steps

section Runs

variable {s t : SlabSystem}

-- The allocator has handed out the slots of the device and of the resizes under way, and
-- nothing else.
structure SlabInv (s : SlabSystem) : Prop where
  owners : OwnersInv s.driver
  device : s.shared.world.sizes s.shared.world.slotsPtr =
    List.replicate s.shared.world.dev.numBuffers s.shared.world.dev.bufferSize
  holds : ∀ p, (s.locals p).Holds s.shared.world
  memory : replay ∅ s.shared.memory = some s.shared.world.blocks

theorem slabInv_step {act : Act Choice} (h : SlabInv s) (hstep : step slabDriver s act = some t) :
    SlabInv t := by
  have howners := ownersInv_step h.owners (slab_step_driver hstep)
  obtain ⟨w, next, hmove, rfl⟩ := slab_move hstep
  have hown := h.owners.own
  have hslab := hmove.slab_step h.device (fun _ => h.owners.lt) hown.slotsPtr_lt h.owners.nodup
    (hown.owned_live act.pid) (h.holds act.pid)
  refine ⟨howners, hslab.device, fun q => ?_, ?_⟩
  · refine State.forall_put (P := fun _ l => SlabLocal.Holds w l) hslab.holds (fun p _ => ?_) q
    exact (h.holds p).transport fun ptr ho => hslab.frame ptr (hown.owned_lt p ptr ho)
  · exact (replay_append_of_some h.memory).trans hslab.memory

theorem slabInv_boot {dev : Dev} (hdev : Geometry dev) : SlabInv (slabBoot dev) where
  owners := ownersInv_boot dev
  device := by
    refine List.eq_replicate_iff.mpr ⟨?_, ?_⟩
    · exact (List.length_map _).trans hdev.slots_length
    · intro size hsize
      obtain ⟨slot, hslot, rfl⟩ := List.mem_map.mp hsize
      exact hdev.data_length slot hslot
  holds _ := trivial
  memory := by
    have hbuilds := kbufAllocSlots_builds (Block.array 0) (.data 0) (fun _ => true) dev.numBuffers
    have hresult : (kbufAllocSlots (Block.array 0) (.data 0) (fun _ => true)
        dev.numBuffers).result = .ok () := Routine.each_result (fun _ => rfl) _ 0 _ .done
    refine (hbuilds.replay_of_ok (ptrBlocks_nodup ..) nofun
      (fun _ _ => Finset.notMem_empty _) hresult).trans ?_
    simp [World.blocks, World.array, slabBoot, boot, hdev.slots_length]

-- Between resizes the slot memory in use is that of `dev->slots`.
theorem SlabInv.blocks_eq (h : SlabInv s)
    (hidle : ∀ p rq pc, (s.locals p).here ≠ .resize rq pc) :
    s.shared.world.blocks = (slotBlocks (.array s.shared.world.slotsPtr)
      (.data s.shared.world.slotsPtr) s.shared.world.dev.numBuffers).toFinset := by
  have hlive (ptr : Nat) : ptr ∈ s.shared.world.live ↔ ptr = s.shared.world.slotsPtr := by
    constructor
    · intro hmem
      rcases h.owners.owners ptr hmem with heq | ⟨p, hp⟩
      · exact heq
      · have hnot := hidle p
        cases hhere : (s.locals p).here with
        | resize rq pc => exact absurd hhere (hnot rq pc)
        | _ =>
            rw [show (s.driver.locals p) = (s.locals p).here from rfl, hhere] at hp
            cases hp
    · rintro rfl
      exact h.owners.own.slotsPtr_live
  ext b
  rw [mem_blocks, hlive, List.mem_toFinset, mem_slotBlocks]
  refine and_congr_right fun hb => ?_
  rw [hb, h.device, List.length_replicate]

-- Every allocation of a block has been followed by one release, but for the last one of
-- a block that is in use.
theorem SlabInv.balance (h : SlabInv s) (b : Block) :
    s.shared.memory.count (.acquire b) =
      s.shared.memory.count (.release b) + if b ∈ s.shared.world.blocks then 1 else 0 := by
  have hcount := count_balance h.memory b
  rwa [if_neg (Finset.notMem_empty b), Nat.add_zero] at hcount

theorem data_notMem_blocks {w : World} {ptr : Nat} (h : Block.array ptr ∉ w.blocks) (i : Nat) :
    Block.data ptr i ∉ w.blocks := by
  rw [mem_blocks] at h ⊢
  exact fun hdata => h ⟨hdata.1, trivial⟩

-- kbuf_free_slots on `dev->slots` leaves nothing.
theorem SlabInv.teardown (h : SlabInv s)
    (hidle : ∀ p rq pc, (s.locals p).here ≠ .resize rq pc) :
    replay ∅ (s.shared.memory ++ releases (kbufFreeSlots (.array s.shared.world.slotsPtr)
      (.data s.shared.world.slotsPtr) s.shared.world.dev.numBuffers)) = some ∅ := by
  have hperm := kbufFreeSlots_perm (Block.array s.shared.world.slotsPtr)
    (.data s.shared.world.slotsPtr) s.shared.world.dev.numBuffers
  have hnodup := hperm.nodup_iff.mpr (ptrBlocks_nodup _ _)
  rw [replay_append_of_some h.memory, h.blocks_eq hidle, replay_releases hnodup,
    List.toFinset_eq_of_perm _ _ hperm, Finset.sdiff_self]
  intro b hb
  exact List.mem_toFinset.mpr (hperm.mem_iff.mp hb)

end Runs

section Theorem

-- Whatever the resizes, transfers and other calls do and wherever an allocation fails:
-- every free is of memory in use, an array goes together with the buffers of its own
-- slots, and between resizes there is just the memory of `dev->slots`, which
-- kbuf_teardown_devices frees.
theorem slot_memory_exact {dev : Dev} (hdev : Geometry dev) {acts : List (Act Choice)}
    {s : SlabSystem} (hrun : run slabDriver (slabBoot dev) acts = some s) :
    let w := s.shared.world
    let memory := s.shared.memory
    replay ∅ memory = some w.blocks ∧
    (∀ b, memory.count (.acquire b) =
      memory.count (.release b) + if b ∈ w.blocks then 1 else 0) ∧
    (∀ ptr, Block.array ptr ∉ w.blocks →
      ∀ i, memory.count (.release (.data ptr i)) = memory.count (.acquire (.data ptr i))) ∧
    (∀ p ptr n, (s.locals p).frees = some (ptr, n) → (w.array ptr).length = n) ∧
    (∀ kmalloc ptr n e live, (∀ b : Block, b.ptr = ptr → b ∉ live) →
      (kbufAllocSlots (Block.array ptr) (.data ptr) kmalloc n).result = .error e →
      Restores live (kbufAllocSlots (.array ptr) (.data ptr) kmalloc n).trace) ∧
    ((∀ p rq pc, (s.locals p).here ≠ .resize rq pc) →
      w.blocks =
        (slotBlocks (.array w.slotsPtr) (.data w.slotsPtr) w.dev.numBuffers).toFinset ∧
      w.dev.slots.length = w.dev.numBuffers ∧
      (∀ slot ∈ w.dev.slots, slot.data.length = w.dev.bufferSize) ∧
      let all := memory ++
        releases (kbufFreeSlots (.array w.slotsPtr) (.data w.slotsPtr) w.dev.numBuffers)
      replay ∅ all = some ∅ ∧ ∀ b, all.count (.release b) = all.count (.acquire b)) := by
  intro w memory
  have hall : Along slabDriver (fun _ _ => True) (slabBoot dev) acts :=
    along_of_mem fun _ _ _ => trivial
  have hinv : SlabInv s :=
    run_invariant (fun _ _ _ h _ hstep => slabInv_step h hstep) (slabInv_boot hdev) hall hrun
  refine ⟨hinv.memory, hinv.balance, fun ptr harray i => ?_, fun p ptr n hfrees => ?_, ?_,
    fun hidle => ⟨hinv.blocks_eq hidle, ?_, fun slot hslot => ?_, hinv.teardown hidle,
      fun b => ?_⟩⟩
  · have hbalance := hinv.balance (.data ptr i)
    rw [if_neg (data_notMem_blocks harray i)] at hbalance
    exact hbalance.symm
  · have hlength := ((hinv.holds p).frees hfrees).2
    rwa [World.sizes, List.length_map] at hlength
  · intro kmalloc ptr n e live hfresh hresult
    have hbuilds := kbufAllocSlots_builds (Block.array ptr) (.data ptr) kmalloc n
    refine hbuilds.restores (ptrBlocks_nodup ptr n) (fun b hb => hfresh b ?_) hresult
    exact (mem_slotBlocks.mp (hbuilds.within.subset hb)).1
  · have hlength := congrArg List.length hinv.device
    rwa [World.sizes, array_slotsPtr, List.length_map, List.length_replicate] at hlength
  · refine List.eq_of_mem_replicate (n := w.dev.numBuffers) ?_
    rw [← hinv.device, World.sizes, array_slotsPtr]
    exact List.mem_map_of_mem hslot
  · have hcount := count_balance (hinv.teardown hidle) b
    rw [if_neg (Finset.notMem_empty b), Nat.add_zero, Nat.add_zero] at hcount
    exact hcount.symm

-- Three resizes at once, of which the third runs out of memory at its second buffer. The
-- other two replace the array one after the other and free in the opposite order.
def crossedResizes : List (Act Choice) :=
  let rq (numBuffers bufferSize : Nat) (kmalloc : Nat → Bool) : Choice :=
    .start (.resize ⟨false, numBuffers, bufferSize, kmalloc⟩)
  [⟨0, rq 3 1 fun _ => true⟩, ⟨0, .go⟩, ⟨0, .go⟩, ⟨1, rq 1 2 fun _ => true⟩, ⟨1, .go⟩, ⟨1, .go⟩,
    ⟨2, rq 4 1 (· < 2)⟩, ⟨2, .go⟩, ⟨2, .go⟩, ⟨1, .go⟩, ⟨1, .go⟩, ⟨1, .go⟩, ⟨0, .go⟩, ⟨0, .go⟩,
    ⟨0, .go⟩, ⟨0, .go⟩, ⟨1, .go⟩, ⟨0, .go⟩, ⟨1, .go⟩]

theorem slot_memory_exact_crossedResizes :
    ∃ s, run slabDriver (slabBoot (emptyDev .BLOCKING 2 1)) crossedResizes = some s ∧
      s.shared.world.blocks = {.array 1, .data 1 0, .data 1 1, .data 1 2} ∧
      replay ∅ (s.shared.memory ++ releases (kbufFreeSlots (.array 1) (.data 1) 3)) = some ∅ := by
  obtain ⟨s, hrun, hend⟩ := Option.map_eq_some_iff.mp
    (show (run slabDriver (slabBoot (emptyDev .BLOCKING 2 1)) crossedResizes).map
        (fun s => (s.shared.world.slotsPtr, s.shared.world.dev.numBuffers, (s.locals 0).here,
          (s.locals 1).here, (s.locals 2).here)) =
      some (1, 3, .done (.status (.ok ())), .done (.status (.ok ())),
        .done (.status (.error .ENOMEM))) from rfl)
  obtain ⟨hptr, hn, h0, h1, h2⟩ := by simpa only [Prod.mk.injEq] using hend
  have hidle : ∀ p rq pc, (s.locals p).here ≠ .resize rq pc := by
    intro p rq pc hhere
    match p with
    | 0 => cases h0.symm.trans hhere
    | 1 => cases h1.symm.trans hhere
    | 2 => cases h2.symm.trans hhere
    | p + 3 =>
        have hstill : s.locals (p + 3) = ⟨.idle, 0⟩ := run_locals_of_ne hrun fun act hact => by
          have hlt : act.pid < 3 := (by decide : ∀ act ∈ crossedResizes, act.pid < 3) act hact
          omega
        rw [hstill] at hhere
        cases hhere
  have hdev : Geometry (emptyDev .BLOCKING 2 1) := by
    constructor <;> decide
  obtain ⟨-, -, -, -, -, hrest⟩ := slot_memory_exact hdev hrun
  obtain ⟨hblocks, -, -, hnone, -⟩ := hrest hidle
  rw [hptr, hn] at hblocks hnone
  exact ⟨s, hrun, hblocks, hnone⟩

end Theorem

end Kbuf
