import Kbuf.Dyn.Books

namespace Kbuf

open Interleaving Tally

section Definitions

-- A call on a file relies on the file for the device behind it. An export does so
-- until it has taken a reference of its own.
def DynLocal.onFile : DynLocal → Option (Nat × DevPtr)
  | .use handle dev | .resizing handle dev | .exporting handle (.name dev)
  | .exporting handle (.get dev) => some (handle, dev)
  | _ => none

-- What the books say to a process about to take a step.
structure Ready (r : Registry) (here : DynLocal) : Prop where
  vacant : ∀ ptr, r.nextDev ≤ ptr → r.devs ptr = .vacant
  fresh : ∀ handle, r.nextHandle ≤ handle → (r.handles handle).live = false
  listed : ∀ ptr ∈ r.list, 0 < (r.devs ptr).ref
  held : ∀ ptr, 0 < here.holds ptr → 0 < (r.devs ptr).ref
  owned : ∀ ptr, 0 < here.token ptr → 0 < (r.devs ptr).ref
  releasing : ∀ ptr, 0 < here.releasing ptr → ptr < r.nextDev
  bound : ∀ ptr, 0 < r.bound ptr → 0 < (r.devs ptr).ref
  used : ∀ handle, here.uses handle ≤ (r.handles handle).busy
  onFile : ∀ handle dev, here.onFile = some (handle, dev) → (r.handles handle).dev = dev

structure BookStep (r : Registry) (here : DynLocal) (r' : Registry) (next : DynLocal) : Prop where
  balanced : ∀ ptr, Balanced ptr r here r' next
  busy : ∀ handle, (r'.handles handle).busy + here.uses handle =
    (r.handles handle).busy + next.uses handle
  vacant : ∀ ptr, r'.nextDev ≤ ptr → r'.devs ptr = .vacant
  fresh : ∀ handle, r'.nextHandle ≤ handle → (r'.handles handle).live = false
  dev_eq : ∀ handle, handle < r.nextHandle → (r'.handles handle).dev = (r.handles handle).dev
  onFile : ∀ handle dev, next.onFile = some (handle, dev) → (r'.handles handle).dev = dev

-- Two points of a call that the books do not tell apart.
structure SameWeights (next here : DynLocal) : Prop where
  holds : ∀ ptr, next.holds ptr = here.holds ptr
  duties : ∀ ptr, next.duties ptr = here.duties ptr
  uses : ∀ handle, next.uses handle = here.uses handle
  onFile : next.onFile = none ∨ next.onFile = here.onFile

end Definitions

section Ready

variable {r r' : Registry} {here next : DynLocal}

theorem Ready.lt_of_ref (h : Ready r here) {ptr : Nat} (hpos : 0 < (r.devs ptr).ref) :
    ptr < r.nextDev := by
  by_contra hlt
  rw [h.vacant ptr (Nat.le_of_not_lt hlt)] at hpos
  exact absurd hpos (Nat.lt_irrefl 0)

theorem Ready.lt_of_live (h : Ready r here) {handle : Nat}
    (hlive : (r.handles handle).live = true) : handle < r.nextHandle := by
  by_contra hlt
  rw [h.fresh handle (Nat.le_of_not_lt hlt)] at hlive
  cases hlive

theorem live_of_fds {handle : Handle} (h : 0 < handle.fds) : handle.live = true := by
  simp only [Handle.live, decide_eq_true_eq]
  omega

theorem live_of_busy {handle : Handle} (h : 0 < handle.busy) : handle.live = true := by
  simp only [Handle.live, decide_eq_true_eq]
  omega

theorem busy_of_dead {handle : Handle} (h : handle.live = false) : handle.busy = 0 := by
  simp only [Handle.live, decide_eq_false_iff_not] at h
  omega

theorem binds_live {handle : Handle} {ptr : Nat} (h : handle.live = true) :
    handle.binds ptr = handle.dev.counts ptr := by
  simp [Handle.binds, h]

theorem binds_dead {handle : Handle} {ptr : Nat} (h : handle.live = false) :
    handle.binds ptr = 0 := by
  simp [Handle.binds, h]

-- A call that is about to let go of its file has hold of it.
theorem Ready.fdput {handle : Nat} {ret : DynRet} (h : Ready r (.fdput handle ret)) :
    0 < (r.handles handle).busy := by
  have hone : (DynLocal.fdput handle ret).uses handle = 1 := if_pos rfl
  have hused := h.used handle
  omega

-- The device that a call relies on has the reference of the file.
theorem Ready.bound_of_onFile (h : Ready r here) {handle ptr : Nat}
    (hfile : here.onFile = some (handle, .dyn ptr)) (huses : 0 < here.uses handle) :
    0 < r.bound ptr := by
  have hlive : (r.handles handle).live = true :=
    live_of_busy (Nat.lt_of_lt_of_le huses (h.used handle))
  have hbinds : (r.handles handle).binds ptr = 1 := by
    rw [binds_live hlive, h.onFile handle _ hfile, counts_self]
  have hle : (r.handles handle).binds ptr ≤ r.bound ptr :=
    le_tally (Handle.binds ptr) r.handles (h.lt_of_live hlive)
  omega

end Ready

section Quiet

variable {r r' : Registry} {here next : DynLocal}

-- A step that moves no reference.
theorem BookStep.quiet (hready : Ready r here) (hw : SameWeights next here)
    (hcounts : ∀ ptr, SameCounts (r'.devs ptr) (r.devs ptr))
    (hvacant : ∀ ptr, r'.nextDev ≤ ptr → r'.devs ptr = r.devs ptr)
    (hdev : r.nextDev = r'.nextDev) (hlist : r'.list = r.list) (hhandles : r'.handles = r.handles)
    (hhandle : r'.nextHandle = r.nextHandle) : BookStep r here r' next where
  balanced ptr := by
    refine .quiet (hcounts ptr) (by rw [hlist]) ?_ (hw.duties ptr)
    rw [Registry.bound, Registry.bound, hhandles, hhandle, hw.holds]
  busy handle := by rw [hhandles, hw.uses]
  vacant ptr hptr := by
    rw [hvacant ptr hptr]
    exact hready.vacant ptr (hdev ▸ hptr)
  fresh handle hlt := by
    rw [hhandles]
    exact hready.fresh handle (hhandle ▸ hlt)
  dev_eq handle _ := by rw [hhandles]
  onFile handle dev h := by
    rw [hhandles]
    rcases hw.onFile with hn | hn
    · rw [hn] at h
      cases h
    · exact hready.onFile handle dev (hn ▸ h)

theorem BookStep.same (hready : Ready r here) (hw : SameWeights next here) :
    BookStep r here r next :=
  .quiet hready hw (fun _ => .refl _) (fun _ _ => rfl) rfl rfl rfl rfl

-- A step that changes a part of a device that the books do not know.
theorem BookStep.setDev (hready : Ready r here) (hw : SameWeights next here) {ptr : Nat}
    {dev : DynDev} (hcounts : SameCounts dev (r.devs ptr)) (hlt : ptr < r.nextDev) :
    BookStep r here (r.setDev ptr dev) next := by
  refine .quiet hready hw (sameCounts_setDev hcounts) (fun other hother => ?_) rfl rfl rfl rfl
  have hother' : r.nextDev ≤ other := hother
  exact setDev_of_ne r dev (by omega)

end Quiet

section Devices

variable {r r' : Registry} {here next : DynLocal} {ptr : Nat}

-- A step that changes one device or the list and no struct file.
theorem BookStep.device (hready : Ready r here)
    (hbalanced : ∀ other, Balanced other r here r' next)
    (huses : ∀ handle, next.uses handle = here.uses handle)
    (hvacant : ∀ other, r'.nextDev ≤ other → r'.devs other = .vacant)
    (hhandles : r'.handles = r.handles) (hhandle : r'.nextHandle = r.nextHandle)
    (hfile : next.onFile = none) : BookStep r here r' next where
  balanced := hbalanced
  busy handle := by rw [hhandles, huses]
  vacant := hvacant
  fresh handle hlt := by
    rw [hhandles]
    exact hready.fresh handle (hhandle ▸ hlt)
  dev_eq handle _ := by rw [hhandles]
  onFile handle dev h := by
    rw [hfile] at h
    cases h

theorem Ready.vacant_setDev (hready : Ready r here) (hlt : ptr < r.nextDev) (dev : DynDev) :
    ∀ other, r.nextDev ≤ other → (r.setDev ptr dev).devs other = .vacant := by
  intro other hother
  rw [setDev_of_ne r dev (by omega)]
  exact hready.vacant other hother

-- It is enough to balance the one device that a step is about.
theorem balanced_of_one (ptr : Nat) (hself : Balanced ptr r here r' next)
    (hbound : ∀ other, r'.bound other = r.bound other)
    (hothers : ∀ other, other ≠ ptr → r'.devs other = r.devs other ∧
      r'.list.count other = r.list.count other ∧ next.holds other = here.holds other ∧
      next.duties other = here.duties other) (other : Nat) :
    Balanced other r here r' next := by
  by_cases hp : other = ptr
  · subst hp
    exact hself
  · obtain ⟨hdev, hcount, hholds, hduties⟩ := hothers other hp
    refine .quiet ?_ hcount ?_ hduties
    · rw [hdev]
      exact .refl _
    · rw [hbound, hholds]

theorem duties_of_owned {pc : CreatePc} (h : pc.owned = some ptr) :
    (DynLocal.create pc).duties ptr = (1, 0, 1) := by
  simp [DynLocal.duties, DynLocal.token, DynLocal.releasing, DynLocal.creating, h]

theorem CreatePc.owned_token {pc : CreatePc} (h : pc.owned = some ptr) :
    0 < (DynLocal.create pc).token ptr := by
  rw [(duties_inj (duties_of_owned h)).1]
  exact Nat.one_pos

theorem duties_of_not_owned {pc : CreatePc} (h : pc.owned ≠ some ptr) :
    (DynLocal.create pc).duties ptr = (0, 0, 0) := by
  simp [DynLocal.duties, DynLocal.token, DynLocal.releasing, DynLocal.creating, h]

theorem duties_of_ne {pc : CreatePc} {other : Nat} (h : pc.owned = some ptr) (hne : other ≠ ptr) :
    (DynLocal.create pc).duties other = (0, 0, 0) := by
  refine duties_of_not_owned fun howned => hne ?_
  exact Option.some.inj (howned.symm.trans h)

-- A new device takes the place of one that is gone.
theorem kzalloc_books {off : Nat} (hready : Ready r (.create (.kzalloc off))) :
    BookStep r (.create (.kzalloc off))
      { r.setDev r.nextDev (.fresh off) with nextDev := r.nextDev + 1 }
      (.create (.slots r.nextDev)) := by
  have hvacant := hready.vacant r.nextDev (Nat.le_refl _)
  have hfresh : (r.setDev r.nextDev (.fresh off)).devs r.nextDev = .fresh off := setDev_self ..
  refine .device hready (balanced_of_one r.nextDev ?_ (fun _ => rfl) fun other hp => ?_)
    (fun _ => rfl) (fun other hother => ?_) rfl rfl rfl
  · refine .of_duties rfl (duties_of_owned rfl) ?_ ?_ ?_ (Or.inr hvacant) (Or.inl ?_)
    all_goals
      dsimp only
      rw [hfresh, hvacant]
    · rfl
    · rfl
    · rfl
    · exact Nat.le_refl 1
  · exact ⟨setDev_of_ne r _ hp, rfl, rfl, duties_of_ne rfl hp⟩
  · have hlt : r.nextDev + 1 ≤ other := hother
    exact (setDev_of_ne r _ (by omega)).trans (hready.vacant other (by omega))

theorem listAdd_books (hready : Ready r (.create (.listAdd ptr))) :
    BookStep r (.create (.listAdd ptr)) { r with list := r.list ++ [ptr] }
      (.create (.putUser (r.devs ptr).minorOff)) := by
  refine .device hready (balanced_of_one ptr ?_ (fun _ => rfl) fun other hp => ?_) (fun _ => rfl)
    hready.vacant rfl rfl rfl
  · refine .of_duties (duties_of_owned rfl) (duties_of_not_owned nofun) rfl ?_ rfl
      (Or.inl (Nat.add_le_add_right (Nat.zero_le 1) _)) (Or.inl (Nat.le_refl _))
    rw [List.count_append, List.count_singleton_self]
  · refine ⟨rfl, ?_, rfl, (duties_of_ne rfl hp).symm⟩
    simp [Ne.symm hp]

theorem errFree_books {e : Errno} (hready : Ready r (.create (.errFree ptr e))) :
    BookStep r (.create (.errFree ptr e))
      (r.setDev ptr { r.devs ptr with aborted := (r.devs ptr).aborted + 1 })
      (.create (.errIda (r.devs ptr).minorOff e)) := by
  have hduties : (DynLocal.create (.errFree ptr e)).duties ptr = (1, 0, 1) := duties_of_owned rfl
  have hpos := hready.owned ptr (CreatePc.owned_token rfl)
  refine .device hready (balanced_of_one ptr ?_ (fun _ => rfl) fun other hp => ?_) (fun _ => rfl)
    (hready.vacant_setDev (hready.lt_of_ref hpos) _) rfl rfl rfl
  · have hdev := setDev_self r ptr { r.devs ptr with aborted := (r.devs ptr).aborted + 1 }
    refine .of_duties hduties (duties_of_not_owned nofun) ?_ ?_ ?_ (Or.inl ?_) (Or.inl ?_)
    · rw [hdev]
      rfl
    · rw [hdev]
      dsimp only [Registry.setDev]
      omega
    · rw [hdev]
    · rw [hdev]
      dsimp only
      omega
    · rw [hdev]
  · exact ⟨setDev_of_ne r _ hp, rfl, rfl, (duties_of_ne rfl hp).symm⟩

theorem duties_teardown (ptr : Nat) (pc : TeardownPc) (cont : Cont) :
    (DynLocal.teardown ptr pc cont).duties ptr = (1, 0, 0) := by
  simp [DynLocal.duties, DynLocal.token, DynLocal.releasing, DynLocal.creating]

theorem token_teardown (ptr : Nat) (pc : TeardownPc) (cont : Cont) :
    0 < (DynLocal.teardown ptr pc cont).token ptr := by
  rw [(duties_inj (duties_teardown ptr pc cont)).1]
  exact Nat.one_pos

theorem duties_teardown_of_ne {other : Nat} (h : other ≠ ptr) (pc : TeardownPc) (cont : Cont) :
    (DynLocal.teardown ptr pc cont).duties other = (0, 0, 0) := by
  simp [DynLocal.duties, DynLocal.token, DynLocal.releasing, DynLocal.creating,
    counts_of_ne (Ne.symm h)]

theorem duties_release (ptr : Nat) (cont : Cont) :
    (DynLocal.release ptr cont).duties ptr = (0, 1, 0) := by
  simp [DynLocal.duties, DynLocal.token, DynLocal.releasing, DynLocal.creating]

theorem duties_release_of_ne {other : Nat} (h : other ≠ ptr) (cont : Cont) :
    (DynLocal.release ptr cont).duties other = (0, 0, 0) := by
  simp [DynLocal.duties, DynLocal.token, DynLocal.releasing, DynLocal.creating,
    counts_of_ne (Ne.symm h)]

theorem onFile_resume (cont : Cont) : cont.resume.onFile = none := by
  cases cont <;> rfl

theorem erase_books {cont : Cont} (hready : Ready r here) (hmem : ptr ∈ r.list)
    (hholds : ∀ ptr, here.holds ptr = 0) (hduties : ∀ ptr, here.duties ptr = (0, 0, 0))
    (huses : ∀ handle, here.uses handle = cont.uses handle) :
    BookStep r here { r with list := r.list.erase ptr } (.teardown ptr .deviceDestroy cont) := by
  have hcount : 0 < r.list.count ptr := List.count_pos_iff.mpr hmem
  refine .device hready (balanced_of_one ptr ?_ (fun _ => rfl) fun other hp => ?_)
    (fun handle => (huses handle).symm) hready.vacant rfl rfl rfl
  · refine .of_duties (hduties ptr) (duties_teardown ptr _ cont) ?_ ?_ rfl
      (Or.inl (Nat.le_refl _)) (Or.inl (Nat.le_refl _))
    · rw [hholds]
      rfl
    · rw [List.count_erase_self]
      dsimp only
      omega
  · refine ⟨rfl, List.count_erase_of_ne hp, (hholds other).symm, ?_⟩
    rw [hduties, duties_teardown_of_ne hp]

-- What kref_put does to one device, with or without the registered reference.
theorem PutMove.books {cont : Cont} {dev : DynDev} {a : Nat}
    (h : PutMove (r.setDev ptr dev) ptr cont r' next) (hready : Ready r here)
    (hpos : 0 < (r.devs ptr).ref) (href : dev.ref = (r.devs ptr).ref)
    (haborted : dev.aborted = (r.devs ptr).aborted)
    (hreleased : dev.released = (r.devs ptr).released)
    (hdropped : dev.dropped = (r.devs ptr).dropped + a) (hholds : here.holds ptr + a = 1)
    (hduties : here.duties ptr = (a, 0, 0))
    (hothers : ∀ other, other ≠ ptr → here.holds other = 0 ∧ here.duties other = (0, 0, 0))
    (huses : ∀ handle, here.uses handle = cont.uses handle) : BookStep r here r' next := by
  have hdev : ((r.setDev ptr dev).krefPut ptr).devs ptr = { dev with ref := dev.ref - 1 } := by
    rw [Registry.krefPut, setDev_self, setDev_self]
  have hne {other : Nat} (hp : other ≠ ptr) :
      ((r.setDev ptr dev).krefPut ptr).devs other = r.devs other := by
    rw [Registry.krefPut, setDev_of_ne _ _ hp, setDev_of_ne _ _ hp]
  have hvacant (other : Nat) (hother : r.nextDev ≤ other) :
      ((r.setDev ptr dev).krefPut ptr).devs other = .vacant := by
    have hlt := hready.lt_of_ref hpos
    exact (hne (by omega)).trans (hready.vacant other hother)
  have hcount : ((r.setDev ptr dev).krefPut ptr).list.count ptr = r.list.count ptr := rfl
  have hbound : ((r.setDev ptr dev).krefPut ptr).bound ptr = r.bound ptr := rfl
  cases h with
  | last hlast =>
      rw [setDev_self] at hlast
      have hnone : (DynLocal.release ptr cont).holds ptr = 0 := rfl
      refine .device hready (balanced_of_one ptr ?_ (fun _ => rfl) fun other hp => ?_)
        (fun handle => (huses handle).symm) hvacant rfl rfl rfl
      · refine .of_duties hduties (duties_release ptr cont) ?_ ?_ ?_ (Or.inl ?_) (Or.inl ?_)
        all_goals
          rw [hdev]
          dsimp only
          omega
      · obtain ⟨hholds, hnone⟩ := hothers other hp
        exact ⟨hne hp, rfl, hholds.symm, by rw [hnone, duties_release_of_ne hp]⟩
  | more hmore =>
      rw [setDev_self] at hmore
      have hnone := holds_resume ptr cont
      refine .device hready (balanced_of_one ptr ?_ (fun _ => rfl) fun other hp => ?_)
        (fun handle => by rw [uses_resume, huses]) hvacant rfl rfl (onFile_resume cont)
      · refine .of_duties hduties (duties_resume ptr cont) ?_ ?_ ?_ (Or.inl ?_) (Or.inl ?_)
        all_goals
          rw [hdev]
          dsimp only
          omega
      · obtain ⟨hholds, hnone⟩ := hothers other hp
        exact ⟨hne hp, rfl, by rw [holds_resume, hholds], by rw [duties_resume, hnone]⟩

theorem release_books {cont : Cont} (hready : Ready r (.release ptr cont)) :
    BookStep r (.release ptr cont)
      { r.setDev ptr { r.devs ptr with
          mmap := false
          slots := false
          released := (r.devs ptr).released + 1 } with
        ida := r.ida.erase (r.devs ptr).minorOff } cont.resume := by
  have hduties := duties_release ptr cont
  have hlt := hready.releasing ptr (by rw [(duties_inj hduties).2.1]; exact Nat.one_pos)
  refine .device hready (balanced_of_one ptr ?_ (fun _ => rfl) fun other hp => ?_)
    (fun handle => uses_resume handle cont) (hready.vacant_setDev hlt _) rfl rfl
    (onFile_resume cont)
  · refine .of_duties hduties (duties_resume ptr cont) ?_ ?_ ?_ (Or.inl ?_) (Or.inl ?_)
    · rw [setDev_self, holds_resume]
      rfl
    · rw [setDev_self]
      rfl
    · rw [setDev_self]
    · rw [setDev_self]
    · rw [setDev_self]
  · refine ⟨setDev_of_ne r _ hp, rfl, holds_resume other cont, ?_⟩
    rw [duties_resume, duties_release_of_ne hp]

-- Taking a reference to a device that has one.
theorem krefGet_books (hready : Ready r here) (hpos : 0 < (r.devs ptr).ref)
    (hseen : ptr ∈ r.list ∨ 0 < r.bound ptr)
    (hholds : ∀ other, next.holds other = here.holds other + (DevPtr.dyn ptr).counts other)
    (hduties : ∀ other, next.duties other = here.duties other)
    (huses : ∀ handle, next.uses handle = here.uses handle) (hfile : next.onFile = none) :
    BookStep r here (r.krefGet ptr) next := by
  have hdev : (r.krefGet ptr).devs ptr = { r.devs ptr with ref := (r.devs ptr).ref + 1 } :=
    setDev_self ..
  have hbound : (r.krefGet ptr).bound ptr = r.bound ptr := rfl
  have hlist : (r.krefGet ptr).list = r.list := rfl
  refine .device hready (balanced_of_one ptr ?_ (fun _ => rfl) fun other hp => ?_) huses
    (hready.vacant_setDev (hready.lt_of_ref hpos) _) rfl rfl hfile
  · refine .of_duties rfl (hduties ptr) ?_ ?_ ?_ (Or.inl ?_) (Or.inr hseen)
    · rw [hdev, hholds, counts_self]
      dsimp only
      omega
    · rw [hdev, hlist]
    · rw [hdev]
      dsimp only
      omega
    · rw [hdev]
  · refine ⟨setDev_of_ne r _ hp, rfl, ?_, hduties other⟩
    rw [hholds, counts_of_ne (Ne.symm hp), Nat.add_zero]

end Devices

section Files

variable {r r' : Registry} {here next : DynLocal} {handle : Nat} {value : Handle}

-- A step that changes one struct file and no device.
theorem BookStep.setHandle (hready : Ready r here) (hlive : (r.handles handle).live = true)
    (hdev : value.dev = (r.handles handle).dev)
    (hholds : ∀ ptr, (r.handles handle).binds ptr + here.holds ptr =
      value.binds ptr + next.holds ptr)
    (hduties : ∀ ptr, next.duties ptr = here.duties ptr)
    (hbusy : value.busy + here.uses handle = (r.handles handle).busy + next.uses handle)
    (huses : ∀ other, other ≠ handle → next.uses other = here.uses other)
    (hfile : ∀ other dev, next.onFile = some (other, dev) → (r.handles other).dev = dev) :
    BookStep r here (r.setHandle handle value) next := by
  have hsame (other : Nat) :
      ((r.setHandle handle value).handles other).dev = (r.handles other).dev := by
    by_cases ho : other = handle
    · subst ho
      rw [setHandle_self]
      exact hdev
    · rw [setHandle_of_ne r value ho]
  refine ⟨fun ptr => ?_, fun other => ?_, hready.vacant, fun other hother => ?_,
    fun other _ => hsame other, fun other dev h => (hsame other).trans (hfile other dev h)⟩
  · have hbound := bound_setHandle r ptr (hready.lt_of_live hlive) value
    have hsum := hholds ptr
    exact .quiet (.refl _) rfl (by omega) (hduties ptr)
  · by_cases ho : other = handle
    · subst ho
      rw [setHandle_self]
      exact hbusy
    · rw [setHandle_of_ne r value ho, huses other ho]
  · have hlt := hready.lt_of_live hlive
    have hother' : r.nextHandle ≤ other := hother
    rw [setHandle_of_ne r value (by omega)]
    exact hready.fresh other hother'

theorem onFile_unpin (dev : DevPtr) (cont : Cont) : (dev.unpin cont).onFile = none :=
  unpin_cases dev cont (onFile_resume cont) fun _ => rfl

theorem onFile_dispose (value : Handle) (cont : Cont) : (value.dispose cont).onFile = none :=
  dispose_cases value cont rfl (onFile_unpin value.dev cont)

-- One user less: the last one takes the reference over.
theorem DropMove.books {cont : Cont} (h : DropMove r handle value cont r' next)
    (hready : Ready r here) (hlive : (r.handles handle).live = true)
    (hdev : value.dev = (r.handles handle).dev) (hholds : ∀ ptr, here.holds ptr = 0)
    (hduties : ∀ ptr, here.duties ptr = (0, 0, 0))
    (hbusy : value.busy + here.uses handle = (r.handles handle).busy + cont.uses handle)
    (huses : ∀ other, other ≠ handle → cont.uses other = here.uses other) :
    BookStep r here r' next := by
  cases h with
  | kept hkept =>
      refine .setHandle hready hlive hdev (fun ptr => ?_) (fun ptr => ?_) ?_ (fun other ho => ?_)
        fun other dev ho => ?_
      · rw [binds_live hlive, binds_live hkept, hdev, hholds, holds_resume]
      · rw [duties_resume, hduties]
      · rw [uses_resume]
        exact hbusy
      · rw [uses_resume]
        exact huses other ho
      · rw [onFile_resume] at ho
        cases ho
  | last hlast =>
      refine .setHandle hready hlive hdev (fun ptr => ?_) (fun ptr => ?_) ?_ (fun other ho => ?_)
        fun other dev ho => ?_
      · rw [binds_live hlive, binds_dead hlast, hholds, holds_dispose, hdev, Nat.zero_add,
          Nat.add_zero]
      · rw [duties_dispose, hduties]
      · rw [uses_dispose]
        exact hbusy
      · rw [uses_dispose]
        exact huses other ho
      · rw [onFile_dispose] at ho
        cases ho

-- A new struct file takes over the reference that its process holds.
theorem addHandle_books (hready : Ready r here) (hlive : value.live = true)
    (hholds : ∀ ptr, here.holds ptr = value.dev.counts ptr + next.holds ptr)
    (hduties : ∀ ptr, next.duties ptr = here.duties ptr)
    (huses : ∀ other, next.uses other =
      here.uses other + if other = r.nextHandle then value.busy else 0)
    (hfile : next.onFile = none) : BookStep r here (r.addHandle value) next where
  balanced ptr := by
    have hbound := bound_addHandle r ptr value
    have hsum := hholds ptr
    rw [binds_live hlive] at hbound
    exact .quiet (.refl _) rfl (by omega) (hduties ptr)
  busy other := by
    have hfresh := busy_of_dead (hready.fresh r.nextHandle (Nat.le_refl _))
    rw [huses]
    by_cases ho : other = r.nextHandle
    · subst ho
      simp only [Registry.addHandle, Function.update_self, if_true]
      omega
    · simp only [Registry.addHandle, Function.update_of_ne ho, if_neg ho]
      omega
  vacant := hready.vacant
  fresh other hother := by
    have hlt : r.nextHandle + 1 ≤ other := hother
    have hne : other ≠ r.nextHandle := by omega
    simp only [Registry.addHandle, Function.update_of_ne hne]
    exact hready.fresh other (by omega)
  dev_eq other hother := by
    have hne : other ≠ r.nextHandle := by omega
    simp only [Registry.addHandle, Function.update_of_ne hne]
  onFile other dev h := by
    rw [hfile] at h
    cases h

end Files

end Kbuf
