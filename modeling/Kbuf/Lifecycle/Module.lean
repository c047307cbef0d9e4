import Kbuf.Lifecycle.Device

namespace Kbuf

open Ledger

def KBUF_MAX_NDEVICES : Nat := 64

section Registrations

variable (k : Kernel) (n : Nat)

-- What there is of something whose failure is not fatal
def Kernel.present (r : Resource) : List Resource := if (k.fails r).isNone then [r] else []

theorem builds_present (r : Resource) : (k.get r).ignore.Builds [] (k.present r) :=
  builds_ignore ..

def kbufProcRegister : Routine Resource Errno := k.alloc .procEntry

-- kbuf_proc_entry is null if proc_create has failed.
def kbufProcUnregister : List Resource := k.present .procEntry

theorem kbufProcRegister_builds : (kbufProcRegister k).ignore.Builds [] (kbufProcUnregister k) := by
  have h := builds_ignore ((k.fails .procEntry).map fun _ => Errno.ENOMEM) Resource.procEntry
  rwa [Option.isNone_map] at h

-- Below a directory that could not be created debugfs creates nothing.
def kbufDebugfsAdd (i : Nat) : Routine Resource Errno :=
  if (k.fails .debugRoot).isNone then (k.get (.debugDir i)).ignore else .done

def debugDirs (i : Nat) : List Resource :=
  if (k.fails .debugRoot).isNone then k.present (.debugDir i) else []

def kbufDebugfsRegister : Routine Resource Errno :=
  (k.get .debugRoot).ignore.orGoto [] <| .each (kbufDebugfsAdd k) (fun _ => []) 0 n .done

-- debugfs_remove_recursive takes away what is in a directory before the directory.
def kbufDebugfsUnregister : List Resource :=
  (List.range n).flatMap (debugDirs k) ++ k.present .debugRoot

theorem kbufDebugfsAdd_result (i : Nat) : (kbufDebugfsAdd k i).result = .ok () := by
  unfold kbufDebugfsAdd
  split <;> rfl

theorem kbufDebugfsAdd_builds (i : Nat) : (kbufDebugfsAdd k i).Builds [] (debugDirs k i) := by
  unfold kbufDebugfsAdd debugDirs
  split
  · exact builds_present ..
  · exact builds_done []

theorem kbufDebugfsRegister_builds :
    (kbufDebugfsRegister k n).Builds []
      (k.present .debugRoot ++ ((List.range n).flatMap (debugDirs k) ++ [])) := by
  refine (builds_present ..).orGoto nofun ?_
  refine builds_each n (kbufDebugfsAdd_builds k) (fun i e hresult => ?_) (builds_done _)
  rw [kbufDebugfsAdd_result] at hresult
  cases hresult

theorem kbufDebugfsRegister_result : (kbufDebugfsRegister k n).result = .ok () :=
  Routine.each_result (kbufDebugfsAdd_result k) (fun _ => []) 0 n .done

def kbufDmabufInit : Routine Resource Errno :=
  (k.get .importPdev).orGoto [] <| (Routine.check k.dmaMask).orGoto [.importPdev] .done

def kbufDmabufExit : List Resource := [.importPdev]

theorem kbufDmabufInit_builds : (kbufDmabufInit k).Builds [] [.importPdev] :=
  (builds_get ..).orGoto (fun _ _ => .refl _) <|
  (builds_check _).orGoto (fun _ _ => .refl _) (builds_done _)

def kbufCtlRegister : Routine Resource Errno := k.get .ctlMisc

end Registrations

section Init

variable (k : Kernel) (n : Nat)

def kbufTeardownDevices (i : Nat) : List Resource := (List.range i).flatMap teardownStatic

-- The labels of kbuf_init, each of which falls through to the one before it here
def errFree : List Resource := [.devices]
def errRegion : List Resource := [.region (n + KBUF_DYN_MAX)] ++ errFree
def errDevices (i : Nat) : List Resource := kbufTeardownDevices i ++ [.kbufClass] ++ errRegion n
def errDmabuf : List Resource :=
  kbufDebugfsUnregister k n ++ kbufProcUnregister k ++ errDevices n n
def errCtl : List Resource := kbufDmabufExit ++ errDmabuf k n

def kbufInit : Routine Resource Errno :=
  (Routine.check (if n < 1 ∨ n > KBUF_MAX_NDEVICES then some .EINVAL else none)).orGoto [] <|
  (k.alloc .devices).orGoto [] <|
  (k.get (.region (n + KBUF_DYN_MAX))).orGoto errFree <|
  (k.get .kbufClass).orGoto (errRegion n) <|
  .each (createStatic k) (errDevices n) 0 n <|
  (kbufProcRegister k).ignore.orGoto [] <|
  (kbufDebugfsRegister k n).orGoto [] <|
  (kbufDmabufInit k).orGoto (errDmabuf k n) <|
  (kbufCtlRegister k).orGoto (errCtl k n) .done

def initPlan : List Resource :=
  [.devices] ++ ([.region (n + KBUF_DYN_MAX)] ++ ([.kbufClass] ++
    ((List.range n).flatMap staticPlan ++ (kbufProcUnregister k ++
      ((k.present .debugRoot ++ ((List.range n).flatMap (debugDirs k) ++ [])) ++
        ([.importPdev] ++ ([.ctlMisc] ++ [])))))))

theorem kbufTeardownDevices_perm (i : Nat) :
    (kbufTeardownDevices i).Perm ((List.range i).flatMap staticPlan) :=
  List.Perm.flatMap_left _ fun i _ => teardownStatic_perm i

theorem errDevices_perm (i : Nat) :
    (errDevices n i).Perm ([.devices] ++ [.region (n + KBUF_DYN_MAX)] ++ [.kbufClass] ++
      (List.range i).flatMap staticPlan) := by
  refine List.perm_iff_count.mpr fun r => ?_
  have hdevices := (kbufTeardownDevices_perm i).count_eq r
  simp only [errDevices, errRegion, errFree, List.count_append]
  omega

theorem errDmabuf_perm :
    (errDmabuf k n).Perm ([.devices] ++ [.region (n + KBUF_DYN_MAX)] ++ [.kbufClass] ++
      (List.range n).flatMap staticPlan ++ kbufProcUnregister k ++
      (k.present .debugRoot ++ ((List.range n).flatMap (debugDirs k) ++ []))) := by
  refine List.perm_iff_count.mpr fun r => ?_
  have hdevices := (errDevices_perm n n).count_eq r
  simp only [errDmabuf, kbufDebugfsUnregister, List.count_append, List.count_nil] at hdevices ⊢
  omega

theorem kbufInit_builds : (kbufInit k n).Builds [] (initPlan k n) := by
  refine (builds_check _).orGoto (fun _ _ => .refl _) ?_
  refine (builds_alloc ..).orGoto (fun _ _ => .refl _) ?_
  refine (builds_get ..).orGoto (fun _ _ => .refl _) ?_
  refine (builds_get ..).orGoto (fun _ _ => .swap ..) ?_
  refine builds_each n (createStatic_builds k) (fun i _ _ => errDevices_perm n i) ?_
  refine (kbufProcRegister_builds k).orGoto nofun ?_
  refine (kbufDebugfsRegister_builds k n).orGoto (fun e hresult => ?_) ?_
  · rw [kbufDebugfsRegister_result] at hresult
    cases hresult
  refine (kbufDmabufInit_builds k).orGoto (fun _ _ => errDmabuf_perm k n) ?_
  refine (builds_get ..).orGoto (fun _ _ => ?_) (builds_done _)
  exact ((errDmabuf_perm k n).append_left _).trans List.perm_append_comm

end Init

section Dyn

variable (k : Kernel) (ptr off : Nat)

-- The labels of kbuf_dyn_create
def dynErrIda : List Resource := [.ida off]
def dynErrFree : List Resource := [.kbufDev ptr] ++ dynErrIda off
def dynErrSlots : List Resource :=
  freeDevSlots (.dyn ptr) KBUF_DEFAULT_NUM_BUFFERS ++ dynErrFree ptr off
def dynErrMmap : List Resource := kbufMmapDevFree (.dyn ptr) ++ dynErrSlots ptr off

-- The kernel frees the cdev that it deletes, once no file is open.
def dynCdevDel : List Resource := [.part (.dyn ptr) .cdev, .part (.dyn ptr) .cdevAlloc]
def dynErrCdev : List Resource := dynCdevDel ptr ++ dynErrMmap ptr off

-- kbuf_dyn_create once ida_alloc_max has answered, up to the list
def dynConstruct : Routine Resource Errno :=
  let dev := .dyn ptr
  (Routine.acquire none (.ida off)).orGoto [] <|
  (k.alloc (.kbufDev ptr)).orGoto (dynErrIda off) <|
  (allocDevSlots k dev KBUF_DEFAULT_NUM_BUFFERS).orGoto (dynErrFree ptr off) <|
  (kbufMmapDevAlloc k dev).orGoto (dynErrSlots ptr off) <|
  (k.alloc (.part dev .cdevAlloc)).orGoto (dynErrMmap ptr off) <|
  (k.get (.part dev .cdev)).orGoto ([.part dev .cdevAlloc] ++ dynErrMmap ptr off) <|
  (k.get (.part dev .node)).orGoto (dynErrCdev ptr off) .done

-- A dynamic device on kbuf_dyn_list
structure DynEntry where
  ptr : Nat
  off : Nat
  deriving DecidableEq

-- kbuf_dyn_create: what it did and the list it leaves. `ida` is what ida_alloc_max
-- returns and `ptr` where kzalloc would put the device.
def kbufDynCreate (ida : Except Errno Nat) (list : List DynEntry) :
    Routine Resource Errno × List DynEntry :=
  match ida with
  | .error e => (.check (some e), list)
  | .ok off =>
      let built := dynConstruct k ptr off
      (built, if built.result.isOk then list ++ [⟨ptr, off⟩] else list)

-- kbuf_dyn_teardown on a device that nobody has open, and kbuf_dev_release after it
def kbufDynTeardown (entry : DynEntry) : List Resource :=
  [.part (.dyn entry.ptr) .node] ++ dynCdevDel entry.ptr ++ kbufMmapDevFree (.dyn entry.ptr) ++
    freeDevSlots (.dyn entry.ptr) KBUF_DEFAULT_NUM_BUFFERS ++ [.ida entry.off] ++
    [.kbufDev entry.ptr]

def dynPlan : List Resource :=
  [.ida off] ++ ([.kbufDev ptr] ++ (slotsPlan (.dyn ptr) KBUF_DEFAULT_NUM_BUFFERS ++
    (mmapPlan (.dyn ptr) ++ ([.part (.dyn ptr) .cdevAlloc] ++ ([.part (.dyn ptr) .cdev] ++
      ([.part (.dyn ptr) .node] ++ []))))))

theorem dynErrMmap_perm :
    (dynErrMmap ptr off).Perm ([.ida off] ++ [.kbufDev ptr] ++
      slotsPlan (.dyn ptr) KBUF_DEFAULT_NUM_BUFFERS ++ mmapPlan (.dyn ptr)) := by
  refine List.perm_iff_count.mpr fun r => ?_
  have hslots := (freeDevSlots_perm (.dyn ptr) KBUF_DEFAULT_NUM_BUFFERS).count_eq r
  have hmmap := (kbufMmapDevFree_perm (.dyn ptr)).count_eq r
  simp only [dynErrMmap, dynErrSlots, dynErrFree, dynErrIda, List.count_append]
  omega

theorem dynConstruct_builds : (dynConstruct k ptr off).Builds [] (dynPlan ptr off) := by
  have hmmap := dynErrMmap_perm ptr off
  refine (builds_acquire none _).orGoto (fun _ _ => .refl _) ?_
  refine (builds_alloc ..).orGoto (fun _ _ => .refl _) ?_
  refine (allocDevSlots_builds ..).orGoto (fun _ _ => .swap ..) ?_
  refine (kbufMmapDevAlloc_builds ..).orGoto (fun _ _ => ?_) ?_
  · exact ((freeDevSlots_perm ..).append (.swap ..)).trans List.perm_append_comm
  refine (builds_alloc ..).orGoto (fun _ _ => hmmap) ?_
  refine (builds_get ..).orGoto (fun _ _ => ?_) ?_
  · exact (hmmap.append_left _).trans List.perm_append_comm
  refine (builds_get ..).orGoto (fun _ _ => ?_) (builds_done _)
  refine (hmmap.append_left _).trans (List.perm_append_comm.trans ?_)
  rw [List.append_assoc _ [_] [_]]
  exact (List.Perm.swap ..).append_left _

end Dyn

section Exit

variable (k : Kernel) (n : Nat)

-- kbuf_ctl_unregister with the devices left on the list
def kbufCtlUnregister (list : List DynEntry) : List Resource :=
  [.ctlMisc] ++ list.flatMap kbufDynTeardown

def kbufExit (list : List DynEntry) : List Resource :=
  kbufCtlUnregister list ++ kbufDmabufExit ++ kbufDebugfsUnregister k n ++
    kbufProcUnregister k ++ kbufTeardownDevices n ++ [.kbufClass] ++
    [.region (n + KBUF_DYN_MAX)] ++ [.devices]

theorem kbufExit_perm : (kbufExit k n []).Perm (initPlan k n) := by
  refine List.perm_iff_count.mpr fun r => ?_
  have hdevices := (kbufTeardownDevices_perm n).count_eq r
  simp only [kbufExit, kbufCtlUnregister, kbufDmabufExit, kbufDebugfsUnregister, initPlan,
    List.flatMap_nil, List.count_append, List.count_nil]
  omega

end Exit

section Nodup

variable (k : Kernel) (n : Nat)

-- kbuf_init acquires in this order, so that nothing is planned twice.
def Resource.stage : Resource → Nat
  | .devices => 0
  | .region _ => 1
  | .kbufClass => 2
  | .part _ _ => 3
  | .procEntry => 4
  | .debugRoot => 5
  | .debugDir _ => 6
  | .importPdev => 7
  | .ctlMisc => 8
  | .ida _ | .kbufDev _ => 9

structure PlannedFrom (stage : Nat) (plan : List Resource) : Prop where
  nodup : plan.Nodup
  later : ∀ r ∈ plan, stage ≤ r.stage

theorem plannedFrom_nil (stage : Nat) : PlannedFrom stage [] := ⟨List.nodup_nil, nofun⟩

theorem PlannedFrom.append {stage : Nat} {first rest : List Resource}
    (hrest : PlannedFrom (stage + 1) rest) (hfirst : first.Nodup)
    (hstage : ∀ r ∈ first, r.stage = stage) : PlannedFrom stage (first ++ rest) := by
  constructor
  · refine List.nodup_append'.mpr ⟨hfirst, hrest.nodup, fun r hr hmem => ?_⟩
    have hnow := hstage r hr
    have hthen := hrest.later r hmem
    omega
  · intro r hr
    rcases List.mem_append.mp hr with hr | hr
    · exact (hstage r hr).ge
    · exact Nat.le_of_succ_le (hrest.later r hr)

theorem PlannedFrom.cons {stage : Nat} {r : Resource} {rest : List Resource}
    (hrest : PlannedFrom (stage + 1) rest) (hstage : r.stage = stage) :
    PlannedFrom stage ([r] ++ rest) :=
  hrest.append (List.nodup_singleton r) (List.forall_mem_singleton.mpr hstage)

theorem present_nodup (r : Resource) : (k.present r).Nodup := by
  unfold Kernel.present
  split <;> simp

theorem eq_of_mem_present {r q : Resource} (h : q ∈ k.present r) : q = r := by
  unfold Kernel.present at h
  split at h
  · exact List.mem_singleton.mp h
  · cases h

theorem PlannedFrom.present {stage : Nat} {r : Resource} {rest : List Resource}
    (hrest : PlannedFrom (stage + 1) rest) (hstage : r.stage = stage) :
    PlannedFrom stage (k.present r ++ rest) :=
  hrest.append (present_nodup k r) fun _ hmem => by rw [eq_of_mem_present k hmem, hstage]

theorem statics_nodup : ((List.range n).flatMap staticPlan).Nodup := by
  refine List.nodup_flatMap.mpr ⟨fun i _ => staticPlan_nodup i, ?_⟩
  refine List.nodup_range.imp fun hne r hi hj => ?_
  obtain ⟨part, rfl⟩ := eq_part_of_mem_staticPlan hi
  obtain ⟨other, heq⟩ := eq_part_of_mem_staticPlan hj
  cases heq
  exact hne rfl

theorem statics_stage : ∀ r ∈ (List.range n).flatMap staticPlan, r.stage = 3 := by
  intro r hr
  obtain ⟨i, -, hmem⟩ := List.mem_flatMap.mp hr
  obtain ⟨part, rfl⟩ := eq_part_of_mem_staticPlan hmem
  rfl

theorem eq_of_mem_debugDirs {i : Nat} {q : Resource} (h : q ∈ debugDirs k i) :
    q = .debugDir i := by
  unfold debugDirs at h
  split at h
  · exact eq_of_mem_present k h
  · cases h

theorem debugDirs_nodup : ((List.range n).flatMap (debugDirs k)).Nodup := by
  refine List.nodup_flatMap.mpr ⟨fun i _ => ?_, ?_⟩
  · unfold debugDirs
    split
    · exact present_nodup ..
    · exact List.nodup_nil
  · refine List.nodup_range.imp fun hne r hi hj => ?_
    cases (eq_of_mem_debugDirs k hi).symm.trans (eq_of_mem_debugDirs k hj)
    exact hne rfl

theorem debugDirs_stage : ∀ r ∈ (List.range n).flatMap (debugDirs k), r.stage = 6 := by
  intro r hr
  obtain ⟨i, -, hmem⟩ := List.mem_flatMap.mp hr
  rw [eq_of_mem_debugDirs k hmem]
  rfl

theorem initPlan_nodup : (initPlan k n).Nodup := by
  have hlast : PlannedFrom 7 ([.importPdev] ++ ([.ctlMisc] ++ [])) :=
    ((plannedFrom_nil 9).cons rfl).cons rfl
  have hdirs := hlast.append (debugDirs_nodup k n) (debugDirs_stage k n)
  have hproc := (hdirs.present k (r := .debugRoot) rfl).present k (r := .procEntry) rfl
  have hdevices := hproc.append (statics_nodup n) (statics_stage n)
  have hall := ((hdevices.cons (r := .kbufClass) rfl).cons
    (r := .region (n + KBUF_DYN_MAX)) rfl).cons (r := .devices) rfl
  simpa only [initPlan, kbufProcUnregister, List.append_assoc, List.append_nil] using hall.nodup

theorem dynPlan_nodup (ptr off : Nat) : (dynPlan ptr off).Nodup := by
  refine List.nodup_cons.mpr ⟨by simp [slotsPlan, slotBlocks, mmapPlan], ?_⟩
  refine List.nodup_cons.mpr ⟨by simp [slotsPlan, slotBlocks, mmapPlan], ?_⟩
  exact slotsPlan_append_nodup (by simp [mmapPlan]) (by simp [mmapPlan]) (by simp [mmapPlan])

end Nodup

section Unwinding

variable {k : Kernel}

theorem kbufDynCreate_unwinds {ptr : Nat} {ida : Except Errno Nat} {list : List DynEntry}
    {e : Errno} {live : Finset Resource}
    (hresult : (kbufDynCreate k ptr ida list).1.result = .error e)
    (hfresh : ∀ r ∈ acquired (kbufDynCreate k ptr ida list).1.trace, r ∉ live) :
    Restores live (kbufDynCreate k ptr ida list).1.trace ∧
      (kbufDynCreate k ptr ida list).2 = list := by
  cases ida with
  | error e => exact ⟨(builds_check _).restores List.nodup_nil hfresh hresult, rfl⟩
  | ok off =>
      have hbuilt : (dynConstruct k ptr off).result = .error e := hresult
      refine ⟨(dynConstruct_builds ..).restores (dynPlan_nodup ..) hfresh hbuilt, ?_⟩
      simp only [kbufDynCreate, hbuilt]
      rfl

-- An acquisition is of something that is not live yet. Then a kbuf_init that fails, for
-- whatever reason and at whatever device, has given back exactly what it acquired, and so
-- have a kbuf_init and the kbuf_exit after it, and a kbuf_dyn_create that fails.
theorem construction_unwinds (k : Kernel) (live : Finset Resource) :
    (∀ n e, (kbufInit k n).result = .error e →
      (∀ r ∈ acquired (kbufInit k n).trace, r ∉ live) → Restores live (kbufInit k n).trace) ∧
    (∀ n, (kbufInit k n).result = .ok () →
      (∀ r ∈ acquired (kbufInit k n).trace, r ∉ live) →
      Restores live ((kbufInit k n).trace ++ releases (kbufExit k n []))) ∧
    ∀ ptr ida list e, (kbufDynCreate k ptr ida list).1.result = .error e →
      (∀ r ∈ acquired (kbufDynCreate k ptr ida list).1.trace, r ∉ live) →
      Restores live (kbufDynCreate k ptr ida list).1.trace ∧
        (kbufDynCreate k ptr ida list).2 = list := by
  refine ⟨fun n e hresult hfresh => ?_, fun n hresult hfresh => ?_, fun _ _ _ _ => ?_⟩
  · exact (kbufInit_builds k n).restores (initPlan_nodup k n) hfresh hresult
  · exact (kbufInit_builds k n).restores_released (initPlan_nodup k n) hfresh hresult
      (kbufExit_perm k n)
  · exact kbufDynCreate_unwinds

-- The kernel turns down one request.
def Kernel.without (r : Resource) : Kernel where
  fails q := if q = r then some .ENOMEM else none
  dmaMask := none

-- The fourth slot buffer of the second of two devices cannot be allocated; all goes well;
-- a dynamic device gets no node.
theorem construction_unwinds_atSlot :
    let live : Finset Resource := {.kbufDev 7, .ida 0}
    let k := Kernel.without (.part (.static 1) (.slotData 3))
    ((kbufInit k 2).result = .error .ENOMEM ∧ Restores live (kbufInit k 2).trace) ∧
    ((kbufInit k 1).result = .ok () ∧
      Restores live ((kbufInit k 1).trace ++ releases (kbufExit k 1 []))) ∧
    let k := Kernel.without (.part (.dyn 8) .node)
    (kbufDynCreate k 8 (.ok 1) [⟨7, 0⟩]).1.result = .error .ENOMEM ∧
      Restores live (kbufDynCreate k 8 (.ok 1) [⟨7, 0⟩]).1.trace ∧
      (kbufDynCreate k 8 (.ok 1) [⟨7, 0⟩]).2 = [⟨7, 0⟩] := by
  intro live k
  obtain ⟨hfails, hsucceeds, -⟩ := construction_unwinds k live
  obtain ⟨-, -, hdyn⟩ := construction_unwinds (Kernel.without (.part (.dyn 8) .node)) live
  exact ⟨⟨rfl, hfails 2 _ rfl (by decide)⟩, ⟨rfl, hsucceeds 1 rfl (by decide)⟩, rfl,
    hdyn 8 (.ok 1) [⟨7, 0⟩] _ rfl (by decide)⟩

end Unwinding

end Kbuf
