import Kbuf.Lifecycle.Module

namespace Kbuf

open Ledger

section Control

-- kbuf_dyn_destroy, for devices that nobody has open
def kbufDynDestroy (id : Int) (list : List DynEntry) : Routine Resource Errno × List DynEntry :=
  match list.find? fun entry => (entry.off : Int) = id with
  | none => (.check (some .ENOENT), list)
  | some entry => (⟨releases (kbufDynTeardown entry), .ok ()⟩, list.erase entry)

-- A command of the control device, with what the rest of the kernel answers to it.
inductive CtlCall where
  | create (k : Kernel) (ptr : Nat) (ida : Except Errno Nat) (putUser : Bool)
  | destroy (getUser : Option Int)

-- kbuf_ctl_ioctl: what it did and the list it leaves
def kbufCtlIoctl (list : List DynEntry) : CtlCall → Routine Resource Errno × List DynEntry
  | .create k ptr ida putUser =>
      let (built, listed) := kbufDynCreate k ptr ida list
      match ida, built.result with
      | .ok id, .ok () =>
          if putUser then (built, listed)
          else
            let (undo, left) := kbufDynDestroy id listed
            (⟨built.trace ++ undo.trace, .error .EFAULT⟩, left)
      | _, _ => (built, listed)
  | .destroy none => (.check (some .EFAULT), list)
  | .destroy (some id) => kbufDynDestroy id list

-- Commands one after the other: all that they did and the list in the end.
def session : List DynEntry → List CtlCall → List (Op Resource) × List DynEntry
  | list, [] => ([], list)
  | list, call :: calls =>
      let (done, next) := kbufCtlIoctl list call
      let (ops, left) := session next calls
      (done.trace ++ ops, left)

-- The ida hands out no number, and kzalloc no address, that a listed device has.
def CtlCall.Fresh (list : List DynEntry) : CtlCall → Prop
  | .create _ ptr (.ok off) _ => ∀ entry ∈ list, entry.ptr ≠ ptr ∧ entry.off ≠ off
  | .create _ _ (.error _) _ | .destroy _ => True

def AlwaysFresh : List DynEntry → List CtlCall → Prop
  | _, [] => True
  | list, call :: calls => call.Fresh list ∧ AlwaysFresh (kbufCtlIoctl list call).2 calls

instance (list : List DynEntry) : (call : CtlCall) → Decidable (call.Fresh list)
  | .create _ ptr (.ok off) _ =>
      inferInstanceAs (Decidable (∀ entry ∈ list, entry.ptr ≠ ptr ∧ entry.off ≠ off))
  | .create _ _ (.error _) _ | .destroy _ => .isTrue trivial

instance decidableAlwaysFresh :
    (list : List DynEntry) → (calls : List CtlCall) → Decidable (AlwaysFresh list calls)
  | _, [] => .isTrue trivial
  | list, call :: calls =>
      have := decidableAlwaysFresh (kbufCtlIoctl list call).2 calls
      inferInstanceAs (Decidable (call.Fresh list ∧ AlwaysFresh _ calls))

end Control

section Owned

-- What the devices on the list consist of.
def owned (list : List DynEntry) : List Resource :=
  list.flatMap fun entry => dynPlan entry.ptr entry.off

def Resource.ofDyn : Resource → Bool
  | .ida _ | .kbufDev _ | .part (.dyn _) _ => true
  | _ => false

structure Distinct (list : List DynEntry) : Prop where
  ptrs : (list.map DynEntry.ptr).Nodup
  offs : (list.map DynEntry.off).Nodup

theorem mem_dynPlan {ptr off : Nat} {r : Resource} (h : r ∈ dynPlan ptr off) :
    r = .ida off ∨ r = .kbufDev ptr ∨ ∃ part, r = .part (.dyn ptr) part := by
  simp only [dynPlan, slotsPlan, slotBlocks, mmapPlan, List.mem_append, List.mem_cons,
    List.mem_map, List.not_mem_nil, or_false] at h
  rcases h with rfl | rfl | (rfl | ⟨i, -, rfl⟩) | (rfl | rfl) | rfl | rfl | rfl
  · exact .inl rfl
  · exact .inr (.inl rfl)
  all_goals exact .inr (.inr ⟨_, rfl⟩)

theorem ofDyn_of_mem_dynPlan {ptr off : Nat} {r : Resource} (h : r ∈ dynPlan ptr off) :
    r.ofDyn = true := by
  rcases mem_dynPlan h with rfl | rfl | ⟨part, rfl⟩ <;> rfl

theorem ofDyn_of_mem_owned {list : List DynEntry} {r : Resource} (h : r ∈ owned list) :
    r.ofDyn = true := by
  obtain ⟨entry, -, hplan⟩ := List.mem_flatMap.mp h
  exact ofDyn_of_mem_dynPlan hplan

-- Two devices have nothing in common.
theorem dynPlan_disjoint {ptr off ptr' off' : Nat} (hptr : ptr ≠ ptr') (hoff : off ≠ off') :
    (dynPlan ptr off).Disjoint (dynPlan ptr' off') := by
  intro r h h'
  rcases mem_dynPlan h with rfl | rfl | ⟨part, rfl⟩
  all_goals rcases mem_dynPlan h' with heq | heq | ⟨other, heq⟩ <;> cases heq
  · exact hoff rfl
  · exact hptr rfl
  · exact hptr rfl

theorem Distinct.owned_nodup {list : List DynEntry} (h : Distinct list) : (owned list).Nodup := by
  refine List.nodup_flatMap.mpr ⟨fun entry _ => dynPlan_nodup .., ?_⟩
  have hptrs := List.pairwise_map.mp h.ptrs
  have hoffs := List.pairwise_map.mp h.offs
  exact (hptrs.and hoffs).imp fun hne => dynPlan_disjoint hne.1 hne.2

theorem Distinct.of_sublist {list left : List DynEntry} (h : Distinct list)
    (hleft : left.Sublist list) : Distinct left :=
  ⟨h.ptrs.sublist (hleft.map _), h.offs.sublist (hleft.map _)⟩

theorem Distinct.concat {list : List DynEntry} (h : Distinct list) {ptr off : Nat}
    (hfresh : ∀ entry ∈ list, entry.ptr ≠ ptr ∧ entry.off ≠ off) :
    Distinct (list ++ [⟨ptr, off⟩]) := by
  have hperm : List.Perm (list ++ [⟨ptr, off⟩]) (⟨ptr, off⟩ :: list) :=
    List.perm_append_singleton ..
  constructor
  · refine (hperm.map _).nodup_iff.mpr (List.nodup_cons.mpr ⟨fun hmem => ?_, h.ptrs⟩)
    obtain ⟨entry, hentry, heq⟩ := List.mem_map.mp hmem
    exact (hfresh entry hentry).1 heq
  · refine (hperm.map _).nodup_iff.mpr (List.nodup_cons.mpr ⟨fun hmem => ?_, h.offs⟩)
    obtain ⟨entry, hentry, heq⟩ := List.mem_map.mp hmem
    exact (hfresh entry hentry).2 heq

theorem owned_concat (list : List DynEntry) (ptr off : Nat) :
    owned (list ++ [⟨ptr, off⟩]) = owned list ++ dynPlan ptr off := by
  simp [owned]

theorem owned_erase {list : List DynEntry} {entry : DynEntry} (h : entry ∈ list) :
    (owned list).Perm (dynPlan entry.ptr entry.off ++ owned (list.erase entry)) :=
  (List.perm_cons_erase h).flatMap_right _

theorem kbufDynTeardown_perm (entry : DynEntry) :
    (kbufDynTeardown entry).Perm (dynPlan entry.ptr entry.off) := by
  refine List.perm_iff_count.mpr fun r => ?_
  have hslots := (freeDevSlots_perm (.dyn entry.ptr) KBUF_DEFAULT_NUM_BUFFERS).count_eq r
  have hmmap := (kbufMmapDevFree_perm (.dyn entry.ptr)).count_eq r
  have hcdev : (dynCdevDel entry.ptr).count r =
      [Resource.part (.dyn entry.ptr) .cdev].count r +
        [Resource.part (.dyn entry.ptr) .cdevAlloc].count r := by
    rw [dynCdevDel, ← List.singleton_append, List.count_append]
  simp only [kbufDynTeardown, dynPlan, List.count_append, List.count_nil]
  omega

-- kbuf_exit releases what kbuf_init acquired and what is left on the list.
theorem kbufExit_owned (k : Kernel) (n : Nat) (list : List DynEntry) :
    (kbufExit k n list).Perm (initPlan k n ++ owned list) := by
  refine List.perm_iff_count.mpr fun r => ?_
  have hinit := (kbufExit_perm k n).count_eq r
  have hlist := (List.Perm.flatMap_left list fun entry _ => kbufDynTeardown_perm entry).count_eq r
  simp only [kbufExit, kbufCtlUnregister, owned, List.count_append, List.flatMap_nil,
    List.count_nil] at hinit hlist ⊢
  omega

theorem initPlan_not_dyn {k : Kernel} {n : Nat} {r : Resource} (h : r ∈ initPlan k n) :
    r.ofDyn = false := by
  simp only [initPlan, kbufProcUnregister, List.mem_append, List.mem_singleton, List.mem_flatMap,
    List.not_mem_nil, or_false] at h
  rcases h with rfl | rfl | rfl | ⟨i, -, hi⟩ | hproc | (hroot | ⟨i, -, hi⟩) | rfl | rfl
  · rfl
  · rfl
  · rfl
  · obtain ⟨part, rfl⟩ := eq_part_of_mem_staticPlan hi
    rfl
  · rw [eq_of_mem_present k hproc]
    rfl
  · rw [eq_of_mem_present k hroot]
    rfl
  · rw [eq_of_mem_debugDirs k hi]
    rfl
  · rfl
  · rfl

-- Nor does a dynamic device share anything with the rest of the module.
theorem Distinct.loaded_nodup {list : List DynEntry} (h : Distinct list) (k : Kernel) (n : Nat) :
    (initPlan k n ++ owned list).Nodup := by
  refine List.nodup_append'.mpr ⟨initPlan_nodup k n, h.owned_nodup, fun r hr hmem => ?_⟩
  have hno := initPlan_not_dyn hr
  rw [ofDyn_of_mem_owned hmem] at hno
  cases hno

end Owned

section Steps

variable {base : Finset Resource} {list : List DynEntry}
  (hbase : ∀ r, r.ofDyn = true → r ∉ base)

include hbase

theorem dynConstruct_fresh {k : Kernel} {ptr off : Nat}
    (hfresh : ∀ entry ∈ list, entry.ptr ≠ ptr ∧ entry.off ≠ off) :
    ∀ r ∈ acquired (dynConstruct k ptr off).trace, r ∉ base ∪ (owned list).toFinset := by
  intro r hr hmem
  have hplan := (dynConstruct_builds k ptr off).within.subset hr
  rcases Finset.mem_union.mp hmem with hmem | hmem
  · exact hbase r (ofDyn_of_mem_dynPlan hplan) hmem
  · obtain ⟨entry, hentry, hr'⟩ := List.mem_flatMap.mp (List.mem_toFinset.mp hmem)
    obtain ⟨hptr, hoff⟩ := hfresh entry hentry
    exact dynPlan_disjoint hptr hoff hr' hplan

variable (hlist : Distinct list)

include hlist

theorem kbufDynDestroy_replays (id : Int) :
    replay (base ∪ (owned list).toFinset) (kbufDynDestroy id list).1.trace =
        some (base ∪ (owned (kbufDynDestroy id list).2).toFinset) ∧
      Distinct (kbufDynDestroy id list).2 := by
  unfold kbufDynDestroy
  split
  · exact ⟨rfl, hlist⟩
  · rename_i entry hfind
    have hsplit := owned_erase (List.mem_of_find?_eq_some hfind)
    refine ⟨?_, hlist.of_sublist List.erase_sublist⟩
    exact replay_releases_block hlist.owned_nodup hsplit (kbufDynTeardown_perm entry)
      fun r hr => hbase r (ofDyn_of_mem_dynPlan hr)

theorem kbufCtlIoctl_replays {call : CtlCall} (hfresh : call.Fresh list) :
    replay (base ∪ (owned list).toFinset) (kbufCtlIoctl list call).1.trace =
        some (base ∪ (owned (kbufCtlIoctl list call).2).toFinset) ∧
      Distinct (kbufCtlIoctl list call).2 := by
  cases call with
  | destroy getUser =>
      cases getUser with
      | none => exact ⟨rfl, hlist⟩
      | some id => exact kbufDynDestroy_replays hbase hlist id
  | create k ptr ida putUser =>
      cases ida with
      | error e => exact ⟨rfl, hlist⟩
      | ok off =>
          have hbuilds := dynConstruct_builds k ptr off
          have hnew := dynConstruct_fresh hbase (k := k) hfresh
          cases hresult : (dynConstruct k ptr off).result with
          | error e =>
              have hsame := hbuilds.replay_of_error (dynPlan_nodup ..) nofun hnew hresult
              rw [List.toFinset_nil, Finset.sdiff_empty] at hsame
              simp only [kbufCtlIoctl, kbufDynCreate, hresult]
              exact ⟨hsame, hlist⟩
          | ok done =>
              have hgrown := hbuilds.replay_of_ok (dynPlan_nodup ..) nofun hnew hresult
              rw [Finset.union_assoc, ← List.toFinset_append, ← owned_concat] at hgrown
              have hlonger := hlist.concat hfresh
              simp only [kbufCtlIoctl, kbufDynCreate, hresult]
              cases putUser with
              | true => exact ⟨hgrown, hlonger⟩
              | false =>
                  -- the caller's memory cannot be written, and the device goes again
                  obtain ⟨hundone, hleft⟩ := kbufDynDestroy_replays hbase hlonger off
                  exact ⟨(replay_append_of_some hgrown).trans hundone, hleft⟩

-- At any time the live resources are those of the listed devices.
theorem session_replays {calls : List CtlCall} (hfresh : AlwaysFresh list calls) :
    replay (base ∪ (owned list).toFinset) (session list calls).1 =
        some (base ∪ (owned (session list calls).2).toFinset) ∧
      Distinct (session list calls).2 := by
  induction calls generalizing list with
  | nil => exact ⟨rfl, hlist⟩
  | cons call calls ih =>
      obtain ⟨hcall, hnext⟩ := kbufCtlIoctl_replays hbase hlist hfresh.1
      obtain ⟨hrest, hend⟩ := ih hnext hfresh.2
      exact ⟨(replay_append_of_some hcall).trans hrest, hend⟩

end Steps

-- The module from kbuf_init to kbuf_exit, with any commands of the control device in
-- between, each of which may fail anywhere. What is live at any time is what kbuf_init
-- acquired and what the listed devices consist of, and when the module is gone the rest of
-- the kernel has back exactly what it gave.
theorem module_session {k : Kernel} {n : Nat} {calls : List CtlCall} {live : Finset Resource}
    (hload : (kbufInit k n).result = .ok ())
    (hinit : ∀ r ∈ initPlan k n, r ∉ live) (hdyn : ∀ r, r.ofDyn = true → r ∉ live)
    (hfresh : AlwaysFresh [] calls) :
    let ops := (kbufInit k n).trace ++ (session [] calls).1
    let left := (session [] calls).2
    replay live ops = some (live ∪ (initPlan k n ++ owned left).toFinset) ∧
      replay live (ops ++ releases (kbufExit k n left)) = some live ∧
      ∀ r, (ops ++ releases (kbufExit k n left)).count (.release r) =
        (ops ++ releases (kbufExit k n left)).count (.acquire r) := by
  intro ops left
  have hbuilds := kbufInit_builds k n
  have hacquired : ∀ r ∈ acquired (kbufInit k n).trace, r ∉ live := fun r hr =>
    hinit r (hbuilds.within.subset hr)
  have hloaded := hbuilds.replay_of_ok (initPlan_nodup k n) nofun hacquired hload
  have hbase : ∀ r, r.ofDyn = true → r ∉ live ∪ (initPlan k n).toFinset := by
    intro r hr hmem
    rcases Finset.mem_union.mp hmem with hmem | hmem
    · exact hdyn r hr hmem
    · rw [initPlan_not_dyn (List.mem_toFinset.mp hmem)] at hr
      cases hr
  have hempty : Distinct [] := ⟨List.nodup_nil, List.nodup_nil⟩
  obtain ⟨hsession, hleft⟩ := session_replays hbase hempty hfresh
  have hops : replay live ops = some (live ∪ (initPlan k n ++ owned left).toFinset) := by
    rw [List.toFinset_append, ← Finset.union_assoc]
    refine (replay_append_of_some hloaded).trans ?_
    rw [← hsession]
    simp [owned]
  have hnew : ∀ r ∈ initPlan k n ++ owned left, r ∉ live := by
    intro r hr
    rcases List.mem_append.mp hr with hr | hr
    · exact hinit r hr
    · exact hdyn r (ofDyn_of_mem_owned hr)
  have hall : replay live (ops ++ releases (kbufExit k n left)) = some live := by
    rw [replay_append_of_some hops]
    exact replay_releases_all (hleft.loaded_nodup k n) (kbufExit_owned k n left) hnew
  refine ⟨hops, hall, fun r => ?_⟩
  have hbalance := count_balance hall r
  omega

-- A device is made; a second one gets no node; the caller of a third one cannot be told its
-- number; the first one is destroyed, and its number and address serve again.
def reusedNumber : List CtlCall :=
  let k := Kernel.without (.part (.dyn 9) .node)
  [.create k 8 (.ok 0) true, .create k 9 (.ok 1) true, .create k 10 (.ok 1) false,
    .destroy (some 0), .destroy (some 0), .create k 8 (.ok 0) true]

theorem module_session_reusedNumber :
    let k := Kernel.without .procEntry
    let ops := (kbufInit k 1).trace ++ (session [] reusedNumber).1
    (session [] reusedNumber).2 = [⟨8, 0⟩] ∧
      ops.count (.acquire (.ida 0)) = 2 ∧ ops.count (.release (.ida 0)) = 1 ∧
      replay ∅ (ops ++ releases (kbufExit k 1 [⟨8, 0⟩])) = some ∅ := by
  intro k ops
  have hleft : (session [] reusedNumber).2 = [⟨8, 0⟩] := rfl
  have hfresh : AlwaysFresh [] reusedNumber := by decide
  obtain ⟨-, hgone, -⟩ := module_session (k := k) (n := 1) rfl (fun _ _ => Finset.notMem_empty _)
    (fun _ _ => Finset.notMem_empty _) hfresh
  exact ⟨hleft, by decide, by decide, hgone⟩

end Kbuf
