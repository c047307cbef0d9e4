import Kbuf.Dyn.Instances

namespace Kbuf

open Interleaving Tally

section Definitions

-- The device whose struct device a step looks into: dev_name(dev->dev) in kbuf_open,
-- kbuf_release, kbuf_ioc_resize and kbuf_dmabuf_export.
def DynLocal.derefs : DynLocal → DynChoice → Option DevPtr
  | .opening (.opened dev), .go | .closing dev _, .go | .resizing _ dev, .go
  | .exporting _ (.name dev), .go => some dev
  | _, _ => none

-- A call that has yet to print the name of the device.
def DynLocal.naming (ptr : Nat) (here : DynLocal) : Prop := here.derefs .go = some (.dyn ptr)

-- An open file of the device: its last close will print the name.
def Handle.names (ptr : Nat) (handle : Handle) : Prop :=
  handle.live = true ∧ handle.kind = .file ∧ handle.dev = .dyn ptr

-- The device is open, or a call on it has yet to print its name.
def InUse (s : DynSystem) (ptr : Nat) : Prop :=
  (∃ handle, (s.shared.handles handle).names ptr) ∨ ∃ p, (s.locals p).naming ptr

-- kbuf_dyn_teardown calls device_destroy for devices only that are not in use.
def DestroysUnused (s : DynSystem) (act : Act DynChoice) : Prop :=
  ∀ ptr cont, s.locals act.pid = .teardown ptr .deviceDestroy cont → ¬InUse s ptr

-- One device before and after a step: a new file or call on it was led there by
-- the call before it, by the list or by an open file, and its struct device is gone
-- only if the step was its device_destroy.
structure NameStep (ptr : Nat) (r : Registry) (here : DynLocal) (r' : Registry)
    (next : DynLocal) : Prop where
  files : ∀ handle, (r'.handles handle).names ptr → (r.handles handle).names ptr ∨ here.naming ptr
  calls : next.naming ptr → here.naming ptr ∨ ptr ∈ r.list ∨ ∃ handle, (r.handles handle).names ptr
  node : (r.devs ptr).node = true → (r'.devs ptr).node = true ∨
    ∃ cont, here = .teardown ptr .deviceDestroy cont

end Definitions

section Calls

variable {r r' : Registry} {here next : DynLocal} {ptr : Nat}

theorem not_naming (hnext : next.derefs .go = none) : ¬next.naming ptr := by
  intro hnames
  rw [DynLocal.naming, hnext] at hnames
  cases hnames

theorem not_naming_resume (cont : Cont) : ¬cont.resume.naming ptr := by
  cases cont <;> exact not_naming rfl

theorem not_naming_unpin (dev : DevPtr) (cont : Cont) : ¬(dev.unpin cont).naming ptr :=
  unpin_cases dev cont (not_naming_resume cont) fun _ => not_naming rfl

theorem not_naming_enter (request : DynRequest) : ¬request.enter.naming ptr := by
  cases request <;> exact not_naming rfl

-- A step that leaves the files and the struct device alone and ends outside the
-- calls that print a name.
theorem NameStep.quiet (hhandles : r'.handles = r.handles)
    (hnode : (r.devs ptr).node = true → (r'.devs ptr).node = true) (hnext : ¬next.naming ptr) :
    NameStep ptr r here r' next where
  files handle h := by
    rw [hhandles] at h
    exact Or.inl h
  calls h := absurd h hnext
  node h := Or.inl (hnode h)

theorem node_setDev {other : Nat} {dev : DynDev}
    (hdev : (r.devs other).node = true → dev.node = true) (h : (r.devs ptr).node = true) :
    ((r.setDev other dev).devs ptr).node = true := by
  by_cases hp : ptr = other
  · subst hp
    rw [setDev_self]
    exact hdev h
  · rw [setDev_of_ne r dev hp]
    exact h

theorem NameStep.setDev {other : Nat} {dev : DynDev}
    (hdev : (r.devs other).node = true → dev.node = true) (hnext : ¬next.naming ptr) :
    NameStep ptr r here (r.setDev other dev) next :=
  .quiet rfl (node_setDev hdev) hnext

theorem NameStep.same (hnext : ¬next.naming ptr) : NameStep ptr r here r next :=
  .quiet rfl id hnext

theorem CreateMove.names {pc : CreatePc} (hvacant : ∀ ptr, r.nextDev ≤ ptr → r.devs ptr = .vacant)
    (h : CreateMove r pc r' next) : NameStep ptr r (.create pc) r' next := by
  cases h with
  | kzalloc =>
      refine .quiet rfl (fun hnode => ?_) (not_naming rfl)
      refine node_setDev (fun hnew => ?_) hnode
      rw [hvacant r.nextDev (Nat.le_refl _)] at hnew
      cases hnew
  | deviceCreate => exact .setDev (fun _ => rfl) (not_naming rfl)
  | slots | mmap | cdevAdd | errCdev | errMmap | errSlots | errFree =>
      exact .setDev id (not_naming rfl)
  | ida | listAdd | errIda => exact .quiet rfl id (not_naming rfl)
  | idaFail | kzallocFail | slotsFail | mmapFail | cdevAlloc | cdevAllocFail | cdevAddFail
  | deviceCreateFail | putUser | putUserFail => exact .same (not_naming rfl)

theorem PutMove.names {other : Nat} {cont : Cont} (h : PutMove r other cont r' next) (ptr : Nat) :
    r'.handles = r.handles ∧ ((r.devs ptr).node = true → (r'.devs ptr).node = true) ∧
      ¬next.naming ptr := by
  cases h with
  | last => exact ⟨rfl, node_setDev id, not_naming rfl⟩
  | more => exact ⟨rfl, node_setDev id, not_naming_resume cont⟩

theorem TeardownMove.names {other : Nat} {cont : Cont} {pc : TeardownPc}
    (h : TeardownMove r other cont pc r' next) :
    NameStep ptr r (.teardown other pc cont) r' next := by
  cases h with
  | deviceDestroy =>
      refine ⟨fun _ => Or.inl, fun h => absurd h (not_naming rfl), fun hnode => ?_⟩
      by_cases hp : ptr = other
      · subst hp
        exact Or.inr ⟨cont, rfl⟩
      · left
        rw [setDev_of_ne r _ hp]
        exact hnode
  | cdevDel => exact .setDev id (not_naming rfl)
  | put h =>
      obtain ⟨hhandles, hnode, hnext⟩ := h.names ptr
      exact .quiet hhandles (fun hbefore => hnode (node_setDev id hbefore)) hnext

end Calls

section Files

variable {r r' : Registry} {here next : DynLocal} {ptr handle : Nat} {value : Handle}

-- A file that is in use after a change to one file was so before.
theorem files_setHandle {other : Nat} (h : ((r.setHandle handle value).handles other).names ptr)
    (hlive : (r.handles handle).live = true) (hkind : value.kind = (r.handles handle).kind)
    (hdev : value.dev = (r.handles handle).dev) : (r.handles other).names ptr := by
  by_cases ho : other = handle
  · subst ho
    rw [setHandle_self] at h
    obtain ⟨-, hk, hd⟩ := h
    exact ⟨hlive, hkind.symm.trans hk, hdev.symm.trans hd⟩
  · rwa [setHandle_of_ne r value ho] at h

theorem OpenMove.names {pc : OpenPc} (h : OpenMove r pc r' next) :
    NameStep ptr r (.opening pc) r' next := by
  cases h with
  | static => exact .same nofun
  | missing => exact .same (not_naming rfl)
  | found _ hfind =>
      refine ⟨fun _ => Or.inl, fun hnext => ?_, fun hnode => Or.inl (node_setDev id hnode)⟩
      obtain rfl := DevPtr.dyn.inj (Option.some.inj hnext)
      exact Or.inr (Or.inl (find_mem hfind))
  | opened =>
      refine ⟨fun handle hnames => ?_, fun h => absurd h (not_naming rfl), Or.inl⟩
      by_cases ho : handle = r.nextHandle
      · subst ho
        simp only [Registry.addHandle, Function.update_self] at hnames
        exact Or.inr (congrArg some hnames.2.2)
      · simp only [Registry.addHandle, Function.update_of_ne ho] at hnames
        exact Or.inl hnames

-- The last user of a file prints its name, if the file is one of the device.
theorem DropMove.names {cont : Cont} (h : DropMove r handle value cont r' next)
    (hlive : (r.handles handle).live = true) (hkind : value.kind = (r.handles handle).kind)
    (hdev : value.dev = (r.handles handle).dev) : NameStep ptr r here r' next := by
  cases h with
  | kept =>
      exact ⟨fun _ hnames => Or.inl (files_setHandle hnames hlive hkind hdev),
        fun hnext => absurd hnext (not_naming_resume cont), Or.inl⟩
  | last =>
      refine ⟨fun _ hnames => Or.inl (files_setHandle hnames hlive hkind hdev),
        fun hnext => ?_, Or.inl⟩
      unfold Handle.dispose at hnext
      split at hnext
      · rename_i hfile
        have hnamed : value.dev = .dyn ptr := Option.some.inj hnext
        exact Or.inr (Or.inr ⟨handle, hlive, hkind.symm.trans hfile, hdev.symm.trans hnamed⟩)
      · exact absurd hnext (not_naming_unpin _ cont)

-- A call on a file that a descriptor keeps open.
theorem names_fdget (hkind : (r.handles handle).kind = .file) (hfds : 0 < (r.handles handle).fds)
    (hnext : next.naming ptr → (r.handles handle).dev = .dyn ptr) :
    NameStep ptr r here
      (r.setHandle handle { r.handles handle with busy := (r.handles handle).busy + 1 }) next :=
  ⟨fun _ hnames => Or.inl (files_setHandle hnames (live_of_fds hfds) rfl rfl),
    fun hn => Or.inr (Or.inr ⟨handle, live_of_fds hfds, hkind, hnext hn⟩), Or.inl⟩

theorem FileMove.names (hready : Ready r here) (h : FileMove r here r' next) :
    NameStep ptr r here r' next := by
  cases h with
  | dup hfds =>
      exact ⟨fun _ hnames => Or.inl (files_setHandle hnames (live_of_fds hfds) rfl rfl),
        fun h => absurd h (not_naming rfl), Or.inl⟩
  | close hfds h => exact h.names (live_of_fds hfds) rfl rfl
  | closing => exact .same (not_naming_unpin _ _)
  | fdgetUse hkind hfds => exact names_fdget hkind hfds nofun
  | fdgetResize hkind hfds | fdgetExport hkind hfds => exact names_fdget hkind hfds Option.some.inj
  | fdput h => exact h.names (live_of_busy hready.fdput) rfl rfl
  | dupBad | closeBad | fdgetBad | use | resizing | resizingFail => exact .same (not_naming rfl)

theorem ExportMove.names {pc : ExportPc} (hready : Ready r (.exporting handle pc))
    (h : ExportMove r handle pc r' next) : NameStep ptr r (.exporting handle pc) r' next := by
  cases h with
  | @get dev =>
      cases dev with
      | static => exact .same (not_naming rfl)
      | dyn => exact .setDev id (not_naming rfl)
  | dmaBufExport =>
      refine ⟨fun other hnames => ?_, fun h => absurd h (not_naming rfl), Or.inl⟩
      by_cases ho : other = r.nextHandle
      · subst ho
        simp only [Registry.addHandle, Function.update_self] at hnames
        cases hnames.2.1
      · simp only [Registry.addHandle, Function.update_of_ne ho] at hnames
        exact Or.inl hnames
  | dmaBufExportFail => exact .same (not_naming_unpin _ _)
  | dmaBufFd =>
      have hlive := live_of_busy hready.dmaBufFd.2
      exact ⟨fun _ hnames => Or.inl (files_setHandle hnames hlive rfl rfl),
        fun h => absurd h (not_naming rfl), Or.inl⟩
  | dmaBufFdFail h => exact h.names (live_of_busy hready.dmaBufFd.2) rfl rfl
  | closeFd hfds h => exact h.names (live_of_fds hfds) rfl rfl
  | name | putUser | putUserFail | closeFdBad => exact .same (not_naming rfl)

theorem DynMove.names {choice : DynChoice} (h : DynMove r choice here r' next)
    (hready : Ready r here) (ptr : Nat) : NameStep ptr r here r' next := by
  cases h with
  | enter => exact .same (not_naming_enter _)
  | create h => exact h.names hready.vacant
  | unlink h =>
      cases h with
      | missing => exact .same (not_naming rfl)
      | found => exact .quiet rfl id (not_naming rfl)
  | teardown h => exact h.names
  | put h =>
      obtain ⟨hhandles, hnode, hnext⟩ := h.names ptr
      exact .quiet hhandles hnode hnext
  | release => exact .quiet rfl (node_setDev id) (not_naming_resume _)
  | opening h => exact h.names
  | file h => exact h.names hready
  | exporting h => exact h.names hready
  | getUser | getUserFail => exact .same (not_naming rfl)
  | enterUnload | unloadEnd | unloadNext => exact .quiet rfl id (not_naming rfl)

end Files

section Runs

variable {n : Nat} {s t : DynSystem} {act : Act DynChoice}

-- A device without a struct device is not in use: before device_create nobody can
-- find it, and after device_destroy nobody is left.
structure NameInv (n : Nat) (s : DynSystem) : Prop where
  instances : InstanceInv n s
  gone : ∀ ptr, (s.shared.devs ptr).node = false → ¬InUse s ptr

theorem InstanceInv.unlisted_of_node (h : InstanceInv n s) {ptr : Nat}
    (hnode : (s.shared.devs ptr).node = false) : ptr ∉ s.shared.list := by
  have hnodes := h.minors.nodes ptr
  rw [hnode] at hnodes
  refine List.count_eq_zero.mp ?_
  change 0 = _ at hnodes
  omega

theorem BooksInv.unlisted_of_teardown (h : BooksInv n s) {p ptr : Nat} {pc : TeardownPc}
    {cont : Cont} (hp : p < n) (hhere : s.locals p = .teardown ptr pc cont) :
    ptr ∉ s.shared.list := by
  have hle := le_tally (DynLocal.token ptr) s.locals hp
  rw [hhere, (duties_inj (duties_teardown ptr pc cont)).1] at hle
  have htokens := h.tokens ptr
  exact List.count_eq_zero.mp (by omega)

theorem nameInv_step (h : NameInv n s) (hok : DestroysUnused s act ∧ act.pid < n)
    (hstep : step dynDriver s act = some t) : NameInv n t := by
  refine ⟨instanceInv_step h.instances hok.2 hstep, fun ptr hgone => ?_⟩
  obtain ⟨r', next, hmove, rfl⟩ := dyn_step_move hstep
  obtain ⟨hfiles, hcalls, hnode⟩ := hmove.names (h.instances.books.ready hok.2) ptr
  have hbefore : ¬InUse s ptr ∧ ptr ∉ s.shared.list := by
    cases hnow : (s.shared.devs ptr).node with
    | false => exact ⟨h.gone ptr hnow, h.instances.unlisted_of_node hnow⟩
    | true =>
        rcases hnode hnow with hkept | ⟨cont, hhere⟩
        · exact absurd (hkept.symm.trans hgone) Bool.noConfusion
        · exact ⟨hok.1 ptr cont hhere, h.instances.books.unlisted_of_teardown hok.2 hhere⟩
  obtain ⟨hunused, hlist⟩ := hbefore
  have hhere : ¬(s.locals act.pid).naming ptr := fun hn => hunused (Or.inr ⟨act.pid, hn⟩)
  have hnext : ¬next.naming ptr := by
    intro hn
    rcases hcalls hn with hbefore | hmem | hopen
    · exact hhere hbefore
    · exact hlist hmem
    · exact hunused (Or.inl hopen)
  rintro (⟨handle, hopen⟩ | ⟨p, hn⟩)
  · rcases hfiles handle hopen with hbefore | hbefore
    · exact hunused (Or.inl ⟨handle, hbefore⟩)
    · exact hhere hbefore
  · exact State.forall_put (P := fun _ (here : DynLocal) => ¬here.naming ptr) hnext
      (fun q _ hq => hunused (Or.inr ⟨q, hq⟩)) p hn

theorem nameInv_boot (ndevices n : Nat) : NameInv n (dynBoot ndevices) := by
  refine ⟨instanceInv_boot ndevices n, fun ptr _ => ?_⟩
  rintro (⟨handle, hlive, -⟩ | ⟨p, hn⟩)
  · cases hlive
  · cases hn

theorem naming_of_derefs {here : DynLocal} {choice : DynChoice} {ptr : Nat}
    (h : here.derefs choice = some (.dyn ptr)) : here.naming ptr := by
  unfold DynLocal.derefs at h
  split at h
  all_goals cases h
  all_goals rfl

-- No process is about to look into a struct device that is not there: `node` says that
-- device_create has returned and device_destroy was not called yet.
theorem names_existing_devices {ndevices p ptr : Nat} {choice : DynChoice}
    {acts : List (Act DynChoice)}
    (hok : Along dynDriver DestroysUnused (dynBoot ndevices) acts)
    (hrun : run dynDriver (dynBoot ndevices) acts = some s)
    (hderef : (s.locals p).derefs choice = some (.dyn ptr)) :
    (s.shared.devs ptr).node = true := by
  obtain ⟨n, hpids⟩ := exists_pid_bound acts
  have hinv : NameInv n s := run_invariant (fun _ _ _ => nameInv_step) (nameInv_boot ndevices n)
    (hok.and (along_of_mem fun _ act hmem => hpids act hmem)) hrun
  cases hnode : (s.shared.devs ptr).node with
  | true => rfl
  | false => exact absurd (Or.inr ⟨p, naming_of_derefs hderef⟩) (hinv.gone ptr hnode)

end Runs

section Traces

-- The device is destroyed while it is open, and then closed.
def openDestroy : List (Act DynChoice) :=
  createDyn 0 0 ++ [⟨1, .start (.openMinor 1)⟩, ⟨1, .go⟩, ⟨1, .go⟩, ⟨0, .start (.destroy 0)⟩,
    ⟨0, .go⟩, ⟨0, .go⟩, ⟨0, .go⟩, ⟨1, .start (.close 0)⟩, ⟨1, .go⟩]

-- kbuf_release looks into the struct device that device_destroy has freed.
theorem name_after_destroy :
    ∃ s t, run dynDriver (dynBoot 1) openDestroy = some s ∧
      s.locals 0 = .teardown 0 .cdevDel (.ret .ok) ∧ (s.shared.devs 0).node = false ∧
      (s.locals 1).derefs .go = some (.dyn 0) ∧ step dynDriver s ⟨1, .go⟩ = some t := by
  obtain ⟨s, hrun, hend⟩ := Option.map_eq_some_iff.mp (show
    (run dynDriver (dynBoot 1) openDestroy).map (fun s => (s.locals 0, (s.shared.devs 0).node,
      (s.locals 1).derefs .go, (step dynDriver s ⟨1, .go⟩).isSome)) =
        some (.teardown 0 .cdevDel (.ret .ok), false, some (.dyn 0), true) from rfl)
  obtain ⟨hhere, hnode, hderef, hsome⟩ := by simpa only [Prod.mk.injEq] using hend
  obtain ⟨t, hstep⟩ := Option.isSome_iff_exists.mp hsome
  exact ⟨s, t, hrun, hhere, hnode, hderef, hstep⟩

-- The same id again, after the first device was closed and destroyed.
def closedDestroy : List (Act DynChoice) :=
  createDyn 0 0 ++ [⟨1, .start (.openMinor 1)⟩, ⟨1, .go⟩, ⟨1, .go⟩, ⟨1, .start (.close 0)⟩,
    ⟨1, .go⟩, ⟨1, .go⟩, ⟨1, .go⟩, ⟨0, .start (.destroy 0)⟩, ⟨0, .go⟩, ⟨0, .go⟩, ⟨0, .go⟩, ⟨0, .go⟩,
    ⟨0, .go⟩, ⟨0, .go⟩] ++ createDyn 0 0 ++ [⟨1, .start (.openMinor 1)⟩, ⟨1, .go⟩]

instance (ptr : Nat) (handle : Handle) : Decidable (handle.names ptr) :=
  inferInstanceAs (Decidable (_ ∧ _ ∧ _))

instance (ptr : Nat) (here : DynLocal) : Decidable (here.naming ptr) :=
  inferInstanceAs (Decidable (_ = _))

def destroysUnusedUpTo (bound : Nat) (s : DynSystem) (act : Act DynChoice) : Bool :=
  match s.locals act.pid with
  | .teardown ptr .deviceDestroy _ =>
      decide (∀ handle < s.shared.nextHandle, ¬(s.shared.handles handle).names ptr) &&
        decide (∀ p < bound, ¬(s.locals p).naming ptr)
  | _ => true

theorem destroysUnused_of_upTo {n : Nat} {s : DynSystem} {act : Act DynChoice} (h : BooksInv n s)
    (hcheck : destroysUnusedUpTo n s act = true) : DestroysUnused s act := by
  intro ptr cont hhere
  simp only [destroysUnusedUpTo, hhere, Bool.and_eq_true, decide_eq_true_eq] at hcheck
  obtain ⟨hfiles, hcalls⟩ := hcheck
  rintro (⟨handle, hopen⟩ | ⟨p, hn⟩)
  · by_cases hlt : handle < s.shared.nextHandle
    · exact hfiles handle hlt hopen
    · exact absurd ((h.fresh handle (Nat.le_of_not_lt hlt)).symm.trans hopen.1) nofun
  · by_cases hlt : p < n
    · exact hcalls p hlt hn
    · rw [h.idle p (Nat.le_of_not_lt hlt)] at hn
      cases hn

theorem names_existing_devices_closedDestroy :
    ∃ s, run dynDriver (dynBoot 1) closedDestroy = some s ∧
      (s.locals 1).derefs .go = some (.dyn 1) ∧ (s.shared.devs 0).node = false ∧
      (s.shared.devs 1).node = true := by
  have hcheck : checkAlong dynDriver (destroysUnusedUpTo 2) (dynBoot 1) closedDestroy = true := rfl
  have hpids : ∀ act ∈ closedDestroy, act.pid < 2 := by decide
  have hok : Along dynDriver DestroysUnused (dynBoot 1) closedDestroy :=
    along_of_check (fun _ _ _ h hp ht => booksInv_step h hp ht)
      (fun _ _ => destroysUnused_of_upTo) (booksInv_boot 1 2) hpids hcheck
  obtain ⟨s, hrun, hend⟩ := Option.map_eq_some_iff.mp (show
    (run dynDriver (dynBoot 1) closedDestroy).map (fun s => ((s.locals 1).derefs .go,
      (s.shared.devs 0).node)) = some (some (.dyn 1), false) from rfl)
  obtain ⟨hderef, hnode⟩ := by simpa only [Prod.mk.injEq] using hend
  exact ⟨s, hrun, hderef, hnode, names_existing_devices hok hrun hderef⟩

end Traces

end Kbuf
