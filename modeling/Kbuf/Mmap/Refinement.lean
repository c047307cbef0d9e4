import Kbuf.Mmap.Mapped

namespace Kbuf

open Interleaving

section Definitions

variable {pageSize : Nat}

-- The processes as libkbuf sees them: without pages and mappings.
def mapSystem (s : MappedSystem pageSize) : MapSystem where
  shared := s.shared.ring
  locals p := (s.locals p).here

-- A ring that nobody has used yet.
def freshRing : MapSystem := mapBoot KBUF_MMAP_CAPACITY 0 (List.replicate KBUF_MMAP_CAPACITY 0)

-- One process writes and another one reads, and both have mapped the device.
def MappedStarting (producer consumer : Nat) (s : MappedSystem pageSize)
    (act : Act MapUserChoice) : Prop :=
  match act.choice with
  | .start request =>
      (s.locals act.pid).mapping.isSome = true ∧
        MapStarting producer consumer (mapSystem s) ⟨act.pid, .start request⟩
  | .mapOpen _ | .mapClose | .go => True

structure MapUser.Ok (pageSize : Nat) (user : MapUser) : Prop where
  alive : user.killed = none
  mapped : ∀ map, user.mapping = some map → map.Ok pageSize
  busy : user.here.busy = true → user.mapping.isSome = true

-- The processes are at a point that libkbuf can reach on a plain ring.
structure MappedInv (producer consumer : Nat) (s : MappedSystem pageSize) : Prop where
  users : ∀ p, (s.locals p).Ok pageSize
  capacity : s.shared.mem.capacity = KBUF_MMAP_CAPACITY
  refines : ∃ acts, Along libkbuf (MapStarting producer consumer) freshRing acts ∧
    run libkbuf freshRing acts = some (mapSystem s)

end Definitions

section Boot

variable {pageSize : Nat}

theorem freshRing_stream (producer consumer : Nat) : StreamInv producer consumer freshRing :=
  streamInv_boot capacity_isPowerOfTwo (by decide) List.length_replicate 0

-- The words that kbuf_mmap_dev_alloc has stored, from the last one to the first.
theorem load_freshCtrl (h : ctrlSize ≤ pageSize) :
    Words.load (freshCtrl pageSize) ctrlHead 8 = 0 ∧
    Words.load (freshCtrl pageSize) ctrlTail 8 = 0 ∧
    Words.load (freshCtrl pageSize) ctrlCapacity 4 = KBUF_MMAP_CAPACITY := by
  have hsize : ctrlSize = 136 := rfl
  have hzero : ctrlHead + 8 ≤ (List.replicate pageSize (0 : UInt8)).length := by
    rw [List.length_replicate, ctrlHead]
    omega
  have hone : ctrlTail + 8 ≤
      (Words.store (List.replicate pageSize 0) ctrlHead 8 0).length := by
    rw [Words.length_store hzero, List.length_replicate, ctrlTail, ctrlHead]
    omega
  have htwo : ctrlCapacity + 4 ≤ (Words.store
      (Words.store (List.replicate pageSize 0) ctrlHead 8 0) ctrlTail 8 0).length := by
    rw [Words.length_store hone, Words.length_store hzero, List.length_replicate, ctrlCapacity,
      ctrlTail, ctrlHead]
    omega
  refine ⟨?_, ?_, ?_⟩
  · rw [freshCtrl, Words.load_store_of_disjoint htwo _ (by decide),
      Words.load_store_of_disjoint hone _ (by decide), Words.load_store_self hzero, Nat.zero_mod]
  · rw [freshCtrl, Words.load_store_of_disjoint htwo _ (by decide), Words.load_store_self hone,
      Nat.zero_mod]
  · rw [freshCtrl, Words.load_store_self htwo]
    rfl

theorem mapSystem_boot (h : ctrlSize ≤ pageSize) : mapSystem (mappedBoot h) = freshRing := by
  obtain ⟨hhead, htail, -⟩ := load_freshCtrl h
  simp only [mapSystem, mappedBoot, MappedDev.ring, freshBacking, Backing.loadWord, hhead, htail]
  rfl

theorem mappedInv_boot (h : ctrlSize ≤ pageSize) (producer consumer : Nat) :
    MappedInv producer consumer (mappedBoot h) where
  users _ := ⟨rfl, nofun, nofun⟩
  capacity := (load_freshCtrl h).2.2
  refines := ⟨[], trivial, congrArg some (mapSystem_boot h).symm⟩

end Boot

section Steps

variable {pageSize producer consumer : Nat} {s : MappedSystem pageSize}

theorem mapSystem_put (s : MappedSystem pageSize) (p : Nat) (dev : MappedDev pageSize)
    (user : MapUser) :
    mapSystem (s.put p (dev, user)) = (mapSystem s).put p (dev.ring, user.here) := by
  simp only [mapSystem, State.put, State.mk.injEq, true_and]
  funext q
  by_cases hq : q = p
  · subst hq
    simp
  · simp [hq]

theorem MappedInv.stream (h : MappedInv producer consumer s) :
    StreamInv producer consumer (mapSystem s) := by
  obtain ⟨acts, hok, hrun⟩ := h.refines
  exact run_invariant (fun _ _ _ hinv hok h => streamInv_step hinv hok h)
    (freshRing_stream producer consumer) hok hrun

-- A step that libkbuf does not see.
theorem MappedInv.stutter (h : MappedInv producer consumer s) {p : Nat} {user : MapUser}
    (hhere : user.here = (s.locals p).here) (huser : user.Ok pageSize) :
    MappedInv producer consumer (s.put p (s.shared, user)) where
  users := State.forall_put (P := fun _ (user : MapUser) => user.Ok pageSize) huser
    fun q _ => h.users q
  capacity := h.capacity
  refines := by
    have hsame : (mapSystem s).put p (s.shared.ring, user.here) = mapSystem s := by
      rw [hhere]
      exact congrArg (State.mk s.shared.ring) (Function.update_eq_self p _)
    rw [mapSystem_put, hsame]
    exact h.refines

-- A step of libkbuf.
theorem MappedInv.advance (h : MappedInv producer consumer s) {p : Nat} {dev : MappedDev pageSize}
    {user : MapUser} {choice : MapChoice}
    (hstart : MapStarting producer consumer (mapSystem s) ⟨p, choice⟩)
    (hstep : libkbuf p choice (s.locals p).here s.shared.ring = some (dev.ring, user.here))
    (huser : user.Ok pageSize) (hcapacity : dev.mem.capacity = KBUF_MMAP_CAPACITY) :
    MappedInv producer consumer (s.put p (dev, user)) where
  users := State.forall_put (P := fun _ (user : MapUser) => user.Ok pageSize) huser
    fun q _ => h.users q
  capacity := hcapacity
  refines := by
    obtain ⟨acts, hok, hrun⟩ := h.refines
    have hlast :
        step libkbuf (mapSystem s) ⟨p, choice⟩ = some (mapSystem (s.put p (dev, user))) := by
      rw [mapSystem_put]
      simp only [step, mapSystem, hstep, Option.map_some]
    refine ⟨acts ++ [⟨p, choice⟩], hok.append fun t ht => ?_, run_append_of_some hrun ?_⟩
    · obtain rfl := Option.some.inj (hrun.symm.trans ht)
      exact ⟨hstart, fun _ _ => trivial⟩
    · rw [run, hlast]
      rfl

theorem capacity_store {mem : Backing pageSize} (byte : UInt8) (off : Nat) :
    (mem.store byte (.data off)).capacity = mem.capacity := rfl

theorem capacity_storeWord (hpage : ctrlSize ≤ pageSize) (mem : Backing pageSize)
    (value : BitVec 64) {off : Nat} (hoff : off + 8 ≤ ctrlCapacity) :
    (mem.storeWord value (.ctrl off)).capacity = mem.capacity :=
  load_storeWord_of_disjoint hpage mem (hoff.trans (by decide)) value (Or.inr hoff)

theorem capacity_ite (dev : MappedDev pageSize) (n : Nat) (nothing next : MapLocal) :
    (if n = 0 then (dev, nothing) else (dev, next)).1.mem.capacity = dev.mem.capacity := by
  split <;> rfl

theorem mappedWriteStep_capacity (hpage : ctrlSize ≤ pageSize) (buf : List UInt8)
    (dev : MappedDev pageSize) (pc : MapWritePc) :
    (mappedWriteStep buf dev pc.target pc).1.mem.capacity = dev.mem.capacity := by
  cases pc with
  | loadHead => rfl
  | loadTail head => exact capacity_ite dev _ _ _
  | copy head n i =>
      simp only [mappedWriteStep, MapWritePc.target]
      by_cases hi : i < n
      · simp only [if_pos hi]
        exact capacity_store ..
      · simp only [if_neg hi]
        exact capacity_storeWord hpage dev.mem _ (by decide)

theorem mappedReadStep_capacity (hpage : ctrlSize ≤ pageSize) (n : Nat)
    (dev : MappedDev pageSize) (pc : MapReadPc) :
    (mappedReadStep n dev pc.target pc).1.mem.capacity = dev.mem.capacity := by
  cases pc with
  | loadTail => rfl
  | loadHead tail => exact capacity_ite dev _ _ _
  | copy tail len out =>
      simp only [mappedReadStep, MapReadPc.target]
      by_cases hout : out.length < len
      · simp only [if_pos hout]
      · simp only [if_neg hout]
        exact capacity_storeWord hpage dev.mem _ (by decide)

theorem MapUser.Ok.rest {user : MapUser} (h : user.Ok pageSize) {next : MapLocal}
    (hnext : next.busy = true → user.mapping.isSome = true) :
    ({ user with here := next } : MapUser).Ok pageSize :=
  ⟨h.alive, h.mapped, hnext⟩

-- An access inside a call: it goes through as one of the ring, or it faults a page in.
theorem MappedInv.access (hdvd : pageSize ∣ KBUF_MMAP_CAPACITY) (hpage : ctrlSize ≤ pageSize)
    (h : MappedInv producer consumer s) {p : Nat} {map : Mapping}
    (hmap : (s.locals p).mapping = some map) {addr : Nat}
    (haddr : (s.locals p).here.address pageSize map.vma = some addr) :
    MappedInv producer consumer (s.put p (accessStep (s.locals p) s.shared map addr)) := by
  have huser := h.users p
  have hok := huser.mapped map hmap
  have hstream := h.stream
  have hlocal : (s.locals p).here.Ok producer consumer s.shared.ring p := hstream.local_ok p
  have hgo : MapStarting producer consumer (mapSystem s) ⟨p, .go⟩ := trivial
  have hretry (kaddr : KernelAddr) (hresolve : resolve pageSize map.vma addr = some kaddr)
      (hwalk : map.walk pageSize addr = none) :
      MappedInv producer consumer (s.put p (accessStep (s.locals p) s.shared map addr)) := by
    obtain ⟨map', hfault, hmap'⟩ := hok.fault hresolve
    simp only [accessStep, hwalk, hfault]
    refine h.stutter rfl ⟨huser.alive, fun other hother => ?_, fun _ => rfl⟩
    obtain rfl := Option.some.inj hother
    exact hmap'
  have hthrough (kaddr : KernelAddr) (hresolve : resolve pageSize map.vma addr = some kaddr)
      (hring : libkbuf p .go (s.locals p).here s.shared.ring =
        some (((s.locals p).here.access s.shared kaddr).1.ring,
          ((s.locals p).here.access s.shared kaddr).2))
      (hcapacity : ((s.locals p).here.access s.shared kaddr).1.mem.capacity =
        s.shared.mem.capacity) :
      MappedInv producer consumer (s.put p (accessStep (s.locals p) s.shared map addr)) := by
    cases hwalk : map.walk pageSize addr with
    | none => exact hretry kaddr hresolve hwalk
    | some other =>
        obtain rfl : kaddr = other := Option.some.inj (hresolve.symm.trans (hok.walk hwalk))
        simp only [accessStep, hwalk]
        exact h.advance hgo hring (huser.rest fun _ => by rw [hmap]; rfl)
          (hcapacity.trans h.capacity)
  cases hhere : (s.locals p).here with
  | write buf pc =>
      rw [hhere] at haddr hlocal hthrough
      obtain rfl := Option.some.inj haddr
      refine hthrough pc.target (hlocal.2.resolves hdvd hpage hok.accepted rfl) ?_
        (mappedWriteStep_capacity hpage buf s.shared pc)
      exact congrArg some (mappedWriteStep_ring hpage buf pc)
  | read n pc =>
      rw [hhere] at haddr hlocal hthrough
      obtain rfl := Option.some.inj haddr
      refine hthrough pc.target (hlocal.2.resolves hdvd hpage hok.accepted rfl hstream.ring) ?_
        (mappedReadStep_capacity hpage n s.shared pc)
      exact congrArg some (mappedReadStep_ring hpage n pc)
  | reset pc =>
      rw [hhere] at hlocal
      exact hlocal.elim
  | idle | written | got | resetDone =>
      rw [hhere] at haddr
      cases haddr

theorem restStep_mapOpen (user : MapUser) (dev : MappedDev pageSize) (addr : Nat) :
    restStep user dev (.mapOpen addr) =
      some (dev, { user with mapping := some ⟨mapOpenVma pageSize addr, fun _ => none⟩ }) := by
  simp only [restStep]
  rw [mapOpenVma_accepted]
  rfl

theorem mappedInv_step (hdvd : pageSize ∣ KBUF_MMAP_CAPACITY) (hpage : ctrlSize ≤ pageSize)
    {t : MappedSystem pageSize} {act : Act MapUserChoice} (h : MappedInv producer consumer s)
    (hstart : MappedStarting producer consumer s act)
    (hstep : step (mappedKbuf pageSize) s act = some t) : MappedInv producer consumer t := by
  obtain ⟨next, hp, rfl⟩ := step_eq_some hstep
  obtain ⟨p, choice⟩ := act
  have huser := h.users p
  simp only [mappedKbuf, huser.alive, Option.isSome_none, Bool.false_eq_true, ↓reduceIte] at hp
  by_cases hbusy : (s.locals p).here.busy = true
  · rw [if_pos hbusy] at hp
    obtain ⟨map, hmap⟩ := Option.isSome_iff_exists.mp (huser.busy hbusy)
    cases choice <;> simp only [reduceCtorEq] at hp
    rw [goStep, hmap] at hp
    obtain ⟨addr, haddr, rfl⟩ := Option.map_eq_some_iff.mp hp
    exact h.access hdvd hpage hmap haddr
  · rw [if_neg hbusy] at hp
    cases choice with
    | go => cases hp
    | mapOpen addr =>
        rw [restStep_mapOpen] at hp
        obtain rfl := Option.some.inj hp
        refine h.stutter rfl ⟨huser.alive, fun map hmap => ?_, fun _ => rfl⟩
        obtain rfl := Option.some.inj hmap
        exact mapOpenVma_ok pageSize addr
    | mapClose =>
        obtain rfl := Option.some.inj hp
        exact h.stutter rfl ⟨huser.alive, nofun, fun hbusy' => absurd hbusy' hbusy⟩
    | start request =>
        obtain rfl := Option.some.inj hp
        obtain ⟨hmap, hrole⟩ := hstart
        refine h.advance hrole ?_ (huser.rest fun _ => hmap) h.capacity
        cases hhere : (s.locals p).here with
        | write | read | reset =>
            rw [hhere] at hbusy
            exact absurd rfl hbusy
        | idle | written | got | resetDone => rfl

end Steps

section Returns

variable {pageSize : Nat} {dev : MappedDev pageSize} {addr : KernelAddr}

theorem handsOver_ite {here nothing next : MapLocal} (n : Nat)
    (hnothing : HandsOver here nothing dev.accepted dev.returned dev.accepted dev.returned)
    (hnext : HandsOver here next dev.accepted dev.returned dev.accepted dev.returned) :
    HandsOver here (if n = 0 then (dev, nothing) else (dev, next)).2 dev.accepted dev.returned
      (if n = 0 then (dev, nothing) else (dev, next)).1.accepted
      (if n = 0 then (dev, nothing) else (dev, next)).1.returned := by
  split
  · exact hnothing
  · exact hnext

theorem mappedWriteStep_handsOver (buf : List UInt8) (pc : MapWritePc) :
    HandsOver (.write buf pc) (mappedWriteStep buf dev addr pc).2 dev.accepted dev.returned
      (mappedWriteStep buf dev addr pc).1.accepted
      (mappedWriteStep buf dev addr pc).1.returned := by
  cases pc with
  | loadHead => exact .none rfl rfl
  | loadTail head => exact handsOver_ite _ .full (.none rfl rfl)
  | copy head n i =>
      simp only [mappedWriteStep]
      by_cases hi : i < n
      · rw [if_pos hi]
        exact .none rfl rfl
      · rw [if_neg hi]
        exact .written n

theorem mappedReadStep_handsOver (n : Nat) (pc : MapReadPc) :
    HandsOver (.read n pc) (mappedReadStep n dev addr pc).2 dev.accepted dev.returned
      (mappedReadStep n dev addr pc).1.accepted (mappedReadStep n dev addr pc).1.returned := by
  cases pc with
  | loadTail => exact .none rfl rfl
  | loadHead tail => exact handsOver_ite _ .empty (.none rfl rfl)
  | copy tail len out =>
      simp only [mappedReadStep]
      by_cases hout : out.length < len
      · rw [if_pos hout]
        exact .none rfl rfl
      · rw [if_neg hout]
        exact .got out

theorem accessStep_handsOver (user : MapUser) (map : Mapping) (addr : Nat) :
    HandsOver user.here (accessStep user dev map addr).2.here dev.accepted dev.returned
      (accessStep user dev map addr).1.accepted (accessStep user dev map addr).1.returned := by
  unfold accessStep
  split
  · cases hhere : user.here with
    | write buf pc => exact mappedWriteStep_handsOver buf pc
    | read n pc => exact mappedReadStep_handsOver n pc
    | reset pc => cases pc <;> exact .none rfl rfl
    | idle | written | got | resetDone => exact .none rfl rfl
  · split <;> exact .refl _

theorem restStep_handsOver {user : MapUser} {choice : MapUserChoice}
    {next : MappedDev pageSize × MapUser} (h : restStep user dev choice = some next) :
    HandsOver user.here next.2.here dev.accepted dev.returned next.1.accepted
      next.1.returned := by
  cases choice with
  | mapOpen addr =>
      rw [restStep_mapOpen] at h
      obtain rfl := Option.some.inj h
      exact .refl _
  | mapClose =>
      obtain rfl := Option.some.inj h
      exact .refl _
  | start request =>
      obtain rfl := Option.some.inj h
      exact .enter _ request
  | go => cases h

theorem mappedKbuf_handsOver {s t : MappedSystem pageSize} {act : Act MapUserChoice}
    (h : step (mappedKbuf pageSize) s act = some t) :
    HandsOver (s.locals act.pid).here (t.locals act.pid).here s.shared.accepted s.shared.returned
      t.shared.accepted t.shared.returned := by
  obtain ⟨next, hp, rfl⟩ := step_eq_some h
  rw [State.put_shared, State.put_locals_self]
  simp only [mappedKbuf] at hp
  split at hp
  · cases hp
  split at hp
  · split at hp
    · unfold goStep at hp
      split at hp
      · obtain rfl := Option.some.inj hp
        exact .refl _
      · obtain ⟨addr, -, rfl⟩ := Option.map_eq_some_iff.mp hp
        exact accessStep_handsOver _ _ addr
    · cases hp
  · exact restStep_handsOver hp

-- The bytes that a process is told have been taken, and those that it is given.
def MapUser.took (user next : MapUser) : Option (List UInt8) := user.here.took next.here
def MapUser.gave (user next : MapUser) : Option (List UInt8) := user.here.gave next.here

theorem mappedKbuf_histories {acts : List (Act MapUserChoice)} {s : MappedSystem pageSize}
    {hpage : ctrlSize ≤ pageSize}
    (hrun : run (mappedKbuf pageSize) (mappedBoot hpage) acts = some s) :
    s.shared.accepted =
        (observed (mappedKbuf pageSize) MapUser.took (mappedBoot hpage) acts).flatten ∧
      s.shared.returned =
        (observed (mappedKbuf pageSize) MapUser.gave (mappedBoot hpage) acts).flatten := by
  constructor
  · exact history_eq_observed MappedDev.accepted
      (fun _ _ _ h => (mappedKbuf_handsOver h).accepted_eq) hrun
  · exact history_eq_observed MappedDev.returned
      (fun _ _ _ h => (mappedKbuf_handsOver h).returned_eq) hrun

end Returns

section Runs

variable {pageSize producer consumer : Nat} {s : MappedSystem pageSize}
  {acts : List (Act MapUserChoice)}

-- The whole stack under the byte stream: the areas that kbuf_map_open maps, the pages that
-- kbuf_vm_fault puts into them, the layout of the control page and the algorithm of libkbuf.
-- No access is ever refused, the processes only do what they could do on a plain ring, and
-- the bytes that the writes have taken are those that the reads have returned and those still
-- in the pages.
theorem mapped_stream (hdvd : pageSize ∣ KBUF_MMAP_CAPACITY) (hpage : ctrlSize ≤ pageSize)
    (hreq : Along (mappedKbuf pageSize) (MappedStarting producer consumer) (mappedBoot hpage) acts)
    (hrun : run (mappedKbuf pageSize) (mappedBoot hpage) acts = some s) :
    (∀ p, (s.locals p).killed = none) ∧
      (∃ calls, run libkbuf freshRing calls = some (mapSystem s)) ∧
      s.shared.accepted =
        (observed (mappedKbuf pageSize) MapUser.took (mappedBoot hpage) acts).flatten ∧
      s.shared.returned =
        (observed (mappedKbuf pageSize) MapUser.gave (mappedBoot hpage) acts).flatten ∧
      s.shared.accepted = s.shared.returned ++ s.shared.ring.unread ∧
      s.shared.ring.unread.length ≤ KBUF_MMAP_CAPACITY ∧
      s.shared.mem.capacity = KBUF_MMAP_CAPACITY := by
  have hinv : MappedInv producer consumer s :=
    run_invariant (fun _ _ _ hinv hok h => mappedInv_step hdvd hpage hinv hok h)
      (mappedInv_boot hpage producer consumer) hreq hrun
  obtain ⟨calls, -, hcalls⟩ := hinv.refines
  obtain ⟨haccepted, hreturned⟩ := mappedKbuf_histories hrun
  have hring := hinv.stream.ring
  refine ⟨fun p => (hinv.users p).alive, ⟨calls, hcalls⟩, haccepted, hreturned, hring.stream, ?_,
    hinv.capacity⟩
  exact (Circular.length_window ..).le.trans hring.depth_le

end Runs

-- The two processes map the device at different addresses. Each faults in the control page
-- and the first page of the data when it first comes to them.
def firstBytes : List (Act MapUserChoice) :=
  [⟨0, .mapOpen 0x7000⟩, ⟨0, .start (.write [7, 8, 9])⟩] ++ List.replicate 8 ⟨0, .go⟩ ++
    [⟨1, .mapOpen 0x40000⟩, ⟨1, .start (.read 2)⟩] ++ List.replicate 7 ⟨1, .go⟩ ++
    [⟨0, .mapClose⟩]

def mappedStartingNow (producer consumer : Nat) (s : MappedSystem 4096)
    (act : Act MapUserChoice) : Bool :=
  match act.choice with
  | .start (.write _) => (s.locals act.pid).mapping.isSome && act.pid = producer
  | .start (.read _) => (s.locals act.pid).mapping.isSome && act.pid = consumer
  | .start .reset => false
  | .mapOpen _ | .mapClose | .go => true

theorem mappedStarting_of_now {producer consumer : Nat} {s : MappedSystem 4096}
    {act : Act MapUserChoice} (h : mappedStartingNow producer consumer s act = true) :
    MappedStarting producer consumer s act := by
  obtain ⟨p, choice⟩ := act
  cases choice with
  | start request =>
      cases request with
      | write buf | read n => simpa [mappedStartingNow, MappedStarting, MapStarting] using h
      | reset => cases h
  | mapOpen | mapClose | go => trivial

theorem mapped_stream_firstBytes :
    ∃ s, run (mappedKbuf 4096) (mappedBoot (by decide)) firstBytes = some s ∧
      observed (mappedKbuf 4096) MapUser.took (mappedBoot (by decide)) firstBytes = [[7, 8, 9]] ∧
      observed (mappedKbuf 4096) MapUser.gave (mappedBoot (by decide)) firstBytes = [[7, 8]] ∧
      (∀ p, (s.locals p).killed = none) ∧ [7, 8, 9] = [7, 8] ++ s.shared.ring.unread := by
  have hcheck : checkAlong (mappedKbuf 4096) (mappedStartingNow 0 1) (mappedBoot (by decide))
      firstBytes = true := by decide +kernel
  have hreq : Along (mappedKbuf 4096) (MappedStarting 0 1) (mappedBoot (by decide)) firstBytes :=
    along_of_checkAlong (fun _ _ _ => mappedStarting_of_now) (fun q (_ : 2 ≤ q) => rfl)
      (by decide) hcheck
  obtain ⟨s, hrun⟩ := Option.isSome_iff_exists.mp
    (show (run (mappedKbuf 4096) (mappedBoot (by decide)) firstBytes).isSome = true by
      decide +kernel)
  have htook : observed (mappedKbuf 4096) MapUser.took (mappedBoot (by decide)) firstBytes =
      [[7, 8, 9]] := by decide +kernel
  have hgave : observed (mappedKbuf 4096) MapUser.gave (mappedBoot (by decide)) firstBytes =
      [[7, 8]] := by decide +kernel
  obtain ⟨halive, -, haccepted, hreturned, hstream, -⟩ :=
    mapped_stream (by decide) (by decide) hreq hrun
  rw [haccepted, hreturned, htook, hgave] at hstream
  exact ⟨s, hrun, htook, hgave, halive, hstream⟩

end Kbuf
