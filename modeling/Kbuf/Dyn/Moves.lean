import Kbuf.Dyn.Registry

namespace Kbuf

open Interleaving

section Drops

-- What a process goes to when it drops its reference to a device, and when it is the last
-- user of a struct file.
@[elab_as_elim]
theorem unpin_cases {P : DynLocal → Prop} (dev : DevPtr) (cont : Cont) (resume : P cont.resume)
    (put : ∀ ptr, P (.put ptr cont)) : P (dev.unpin cont) := by
  cases dev with
  | static => exact resume
  | dyn ptr => exact put ptr

@[elab_as_elim]
theorem dispose_cases {P : DynLocal → Prop} (value : Handle) (cont : Cont)
    (closing : P (.closing value.dev cont)) (unpin : P (value.dev.unpin cont)) :
    P (value.dispose cont) := by
  unfold Handle.dispose
  cases value.kind with
  | file => exact closing
  | dmabuf => exact unpin

end Drops

section Ctl

variable {r r' : Registry} {next : DynLocal} {choice : DynChoice}

inductive CreateMove (r : Registry) : CreatePc → Registry → DynLocal → Prop
  | ida {off : Nat} (hlt : off < KBUF_DYN_MAX) (hfree : off ∉ r.ida) :
      CreateMove r .ida { r with ida := off :: r.ida } (.create (.kzalloc off))
  | idaFail {e : Errno} : CreateMove r .ida r (.done (.error e))
  | kzalloc {off : Nat} :
      CreateMove r (.kzalloc off)
        { r.setDev r.nextDev (.fresh off) with nextDev := r.nextDev + 1 }
        (.create (.slots r.nextDev))
  | kzallocFail {off : Nat} : CreateMove r (.kzalloc off) r (.create (.errIda off .ENOMEM))
  | slots {ptr : Nat} :
      CreateMove r (.slots ptr) (r.setDev ptr { r.devs ptr with slots := true })
        (.create (.mmap ptr))
  | slotsFail {ptr : Nat} : CreateMove r (.slots ptr) r (.create (.errFree ptr .ENOMEM))
  | mmap {ptr : Nat} :
      CreateMove r (.mmap ptr) (r.setDev ptr { r.devs ptr with mmap := true })
        (.create (.cdevAlloc ptr))
  | mmapFail {ptr : Nat} {e : Errno} : CreateMove r (.mmap ptr) r (.create (.errSlots ptr e))
  | cdevAlloc {ptr : Nat} : CreateMove r (.cdevAlloc ptr) r (.create (.cdevAdd ptr))
  | cdevAllocFail {ptr : Nat} :
      CreateMove r (.cdevAlloc ptr) r (.create (.errMmap ptr .ENOMEM))
  | cdevAdd {ptr : Nat} :
      CreateMove r (.cdevAdd ptr) (r.setDev ptr { r.devs ptr with cdev := true })
        (.create (.deviceCreate ptr))
  | cdevAddFail {ptr : Nat} {e : Errno} : CreateMove r (.cdevAdd ptr) r (.create (.errMmap ptr e))
  | deviceCreate {ptr : Nat} :
      CreateMove r (.deviceCreate ptr) (r.setDev ptr { r.devs ptr with node := true })
        (.create (.listAdd ptr))
  | deviceCreateFail {ptr : Nat} {e : Errno} :
      CreateMove r (.deviceCreate ptr) r (.create (.errCdev ptr e))
  | listAdd {ptr : Nat} :
      CreateMove r (.listAdd ptr) { r with list := r.list ++ [ptr] }
        (.create (.putUser (r.devs ptr).minorOff))
  | putUser {off : Nat} : CreateMove r (.putUser off) r (.done (.id off))
  | putUserFail {off : Nat} : CreateMove r (.putUser off) r (.unlink off true)
  | errCdev {ptr : Nat} {e : Errno} :
      CreateMove r (.errCdev ptr e) (r.setDev ptr { r.devs ptr with cdev := false })
        (.create (.errMmap ptr e))
  | errMmap {ptr : Nat} {e : Errno} :
      CreateMove r (.errMmap ptr e) (r.setDev ptr { r.devs ptr with mmap := false })
        (.create (.errSlots ptr e))
  | errSlots {ptr : Nat} {e : Errno} :
      CreateMove r (.errSlots ptr e) (r.setDev ptr { r.devs ptr with slots := false })
        (.create (.errFree ptr e))
  | errFree {ptr : Nat} {e : Errno} :
      CreateMove r (.errFree ptr e)
        (r.setDev ptr { r.devs ptr with aborted := (r.devs ptr).aborted + 1 })
        (.create (.errIda (r.devs ptr).minorOff e))
  | errIda {off : Nat} {e : Errno} :
      CreateMove r (.errIda off e) { r with ida := r.ida.erase off } (.done (.error e))

theorem createStep_move {pc : CreatePc} (h : createStep r pc choice = some (r', next)) :
    CreateMove r pc r' next := by
  cases pc with
  | ida =>
      cases choice <;> simp only [createStep, reduceCtorEq] at h
      · obtain ⟨rfl, rfl⟩ := Prod.mk.inj (Option.some.inj h)
        exact .idaFail
      · split at h
        · rename_i hoff
          obtain ⟨rfl, rfl⟩ := Prod.mk.inj (Option.some.inj h)
          exact .ida hoff.1 hoff.2
        · cases h
  | kzalloc | slots | mmap | cdevAlloc | cdevAdd | deviceCreate | putUser =>
      cases choice <;> simp only [createStep, reduceCtorEq] at h
      all_goals
        obtain ⟨rfl, rfl⟩ := Prod.mk.inj (Option.some.inj h)
        constructor
  | listAdd | errCdev | errMmap | errSlots | errFree | errIda =>
      cases choice <;> simp only [createStep, reduceCtorEq] at h
      obtain ⟨rfl, rfl⟩ := Prod.mk.inj (Option.some.inj h)
      constructor

inductive UnlinkMove (r : Registry) (id : Int) (rollback : Bool) : Registry → DynLocal → Prop
  | missing (h : r.find id = none) :
      UnlinkMove r id rollback r (.done (.error (if rollback then .EFAULT else .ENOENT)))
  | found {ptr : Nat} (h : r.find id = some ptr) :
      UnlinkMove r id rollback { r with list := r.list.erase ptr }
        (.teardown ptr .deviceDestroy (.ret (if rollback then .error .EFAULT else .ok)))

theorem unlinkStep_move {id : Int} {rollback : Bool}
    (h : unlinkStep r id rollback choice = some (r', next)) :
    UnlinkMove r id rollback r' next := by
  cases choice <;> simp only [unlinkStep, reduceCtorEq] at h
  split at h
  · obtain ⟨rfl, rfl⟩ := Prod.mk.inj (Option.some.inj h)
    exact .missing ‹_›
  · obtain ⟨rfl, rfl⟩ := Prod.mk.inj (Option.some.inj h)
    exact .found ‹_›

inductive PutMove (r : Registry) (ptr : Nat) (cont : Cont) : Registry → DynLocal → Prop
  | last (h : (r.devs ptr).ref - 1 = 0) : PutMove r ptr cont (r.krefPut ptr) (.release ptr cont)
  | more (h : (r.devs ptr).ref - 1 ≠ 0) : PutMove r ptr cont (r.krefPut ptr) cont.resume

theorem krefPutStep_move (r : Registry) (ptr : Nat) (cont : Cont) :
    PutMove r ptr cont (krefPutStep r ptr cont).1 (krefPutStep r ptr cont).2 := by
  unfold krefPutStep
  split
  · exact .last ‹_›
  · exact .more ‹_›

inductive TeardownMove (r : Registry) (ptr : Nat) (cont : Cont) :
    TeardownPc → Registry → DynLocal → Prop
  | deviceDestroy :
      TeardownMove r ptr cont .deviceDestroy (r.setDev ptr { r.devs ptr with node := false })
        (.teardown ptr .cdevDel cont)
  | cdevDel :
      TeardownMove r ptr cont .cdevDel (r.setDev ptr { r.devs ptr with cdev := false })
        (.teardown ptr .put cont)
  | put {r' : Registry} {next : DynLocal}
      (h : PutMove (r.setDev ptr { r.devs ptr with dropped := (r.devs ptr).dropped + 1 }) ptr
        cont r' next) : TeardownMove r ptr cont .put r' next

theorem teardownStep_move {ptr : Nat} {cont : Cont} {pc : TeardownPc}
    (h : teardownStep r ptr cont pc choice = some (r', next)) :
    TeardownMove r ptr cont pc r' next := by
  cases pc with
  | put =>
      cases choice <;> simp only [teardownStep, reduceCtorEq, Option.some.injEq] at h
      have hmove := krefPutStep_move
        (r.setDev ptr { r.devs ptr with dropped := (r.devs ptr).dropped + 1 }) ptr cont
      rw [h] at hmove
      exact .put hmove
  | deviceDestroy | cdevDel =>
      cases choice <;> simp only [teardownStep, reduceCtorEq] at h
      obtain ⟨rfl, rfl⟩ := Prod.mk.inj (Option.some.inj h)
      constructor

end Ctl

section Files

variable {r r' : Registry} {next : DynLocal} {choice : DynChoice}

inductive OpenMove (r : Registry) : OpenPc → Registry → DynLocal → Prop
  | static {minor : Nat} (h : minor < r.ndevices) :
      OpenMove r (.lookup minor) r (.opening (.opened (.static minor)))
  | missing {minor : Nat} (hm : r.ndevices ≤ minor)
      (h : r.find ((minor - r.ndevices : Nat) : Int) = none) :
      OpenMove r (.lookup minor) r (.done (.error .ENODEV))
  | found {minor ptr : Nat} (hm : r.ndevices ≤ minor)
      (h : r.find ((minor - r.ndevices : Nat) : Int) = some ptr) :
      OpenMove r (.lookup minor) (r.krefGet ptr) (.opening (.opened (.dyn ptr)))
  | opened {dev : DevPtr} :
      OpenMove r (.opened dev) (r.addHandle ⟨.file, dev, 1, 0⟩) (.done (.handle r.nextHandle))

theorem openStep_move {pc : OpenPc} (h : openStep r pc choice = some (r', next)) :
    OpenMove r pc r' next := by
  cases pc with
  | lookup minor =>
      cases choice <;> simp only [openStep, reduceCtorEq] at h
      split at h
      · obtain ⟨rfl, rfl⟩ := Prod.mk.inj (Option.some.inj h)
        exact .static ‹_›
      · rename_i hm
        split at h
        · obtain ⟨rfl, rfl⟩ := Prod.mk.inj (Option.some.inj h)
          exact .missing (Nat.le_of_not_lt hm) ‹_›
        · obtain ⟨rfl, rfl⟩ := Prod.mk.inj (Option.some.inj h)
          exact .found (Nat.le_of_not_lt hm) ‹_›
  | opened dev =>
      cases choice <;> simp only [openStep, reduceCtorEq] at h
      obtain ⟨rfl, rfl⟩ := Prod.mk.inj (Option.some.inj h)
      exact .opened

-- A handle after one user less, and what its process does then.
inductive DropMove (r : Registry) (handle : Nat) (value : Handle) (cont : Cont) :
    Registry → DynLocal → Prop
  | kept (h : value.live = true) :
      DropMove r handle value cont (r.setHandle handle value) cont.resume
  | last (h : value.live = false) :
      DropMove r handle value cont (r.setHandle handle value) (value.dispose cont)

theorem next_move (r : Registry) (handle : Nat) (value : Handle) (cont : Cont) :
    DropMove r handle value cont (r.setHandle handle value) (value.next cont) := by
  unfold Handle.next
  cases hv : value.live with
  | true => exact .kept hv
  | false => exact .last hv

inductive FileMove (r : Registry) : DynLocal → Registry → DynLocal → Prop
  | dup {handle : Nat} (h : 0 < (r.handles handle).fds) :
      FileMove r (.dup handle)
        (r.setHandle handle { r.handles handle with fds := (r.handles handle).fds + 1 })
        (.done .ok)
  | dupBad {handle : Nat} : FileMove r (.dup handle) r (.done (.error .EBADF))
  | close {handle : Nat} {r' : Registry} {next : DynLocal} (hfds : 0 < (r.handles handle).fds)
      (h : DropMove r handle { r.handles handle with fds := (r.handles handle).fds - 1 }
        (.ret .ok) r' next) : FileMove r (.close handle) r' next
  | closeBad {handle : Nat} : FileMove r (.close handle) r (.done (.error .EBADF))
  | closing {dev : DevPtr} {cont : Cont} : FileMove r (.closing dev cont) r (dev.unpin cont)
  | fdgetUse {handle : Nat} (hkind : (r.handles handle).kind = .file)
      (h : 0 < (r.handles handle).fds) :
      FileMove r (.fdget handle .use)
        (r.setHandle handle { r.handles handle with busy := (r.handles handle).busy + 1 })
        (.use handle (r.handles handle).dev)
  | fdgetResize {handle : Nat} (hkind : (r.handles handle).kind = .file)
      (h : 0 < (r.handles handle).fds) :
      FileMove r (.fdget handle .iocResize)
        (r.setHandle handle { r.handles handle with busy := (r.handles handle).busy + 1 })
        (.resizing handle (r.handles handle).dev)
  | fdgetExport {handle : Nat} (hkind : (r.handles handle).kind = .file)
      (h : 0 < (r.handles handle).fds) :
      FileMove r (.fdget handle .iocExport)
        (r.setHandle handle { r.handles handle with busy := (r.handles handle).busy + 1 })
        (.exporting handle (.name (r.handles handle).dev))
  | fdgetBad {handle : Nat} {call : FileCall} :
      FileMove r (.fdget handle call) r (.done (.error .EBADF))
  | use {handle : Nat} {dev : DevPtr} : FileMove r (.use handle dev) r (.fdput handle .ok)
  | resizing {handle : Nat} {dev : DevPtr} : FileMove r (.resizing handle dev) r (.fdput handle .ok)
  | resizingFail {handle : Nat} {dev : DevPtr} {e : Errno} :
      FileMove r (.resizing handle dev) r (.fdput handle (.error e))
  | fdput {handle : Nat} {ret : DynRet} {r' : Registry} {next : DynLocal}
      (h : DropMove r handle { r.handles handle with busy := (r.handles handle).busy - 1 }
        (.ret ret) r' next) : FileMove r (.fdput handle ret) r' next

theorem dropFd_move {handle : Nat} {cont : Cont} (h : dropFd r handle cont = (r', next)) :
    DropMove r handle { r.handles handle with fds := (r.handles handle).fds - 1 } cont r' next := by
  obtain ⟨rfl, rfl⟩ := Prod.mk.inj h
  exact next_move ..

theorem dropBusy_move {handle : Nat} {cont : Cont} (h : dropBusy r handle cont = (r', next)) :
    DropMove r handle { r.handles handle with busy := (r.handles handle).busy - 1 } cont
      r' next := by
  obtain ⟨rfl, rfl⟩ := Prod.mk.inj h
  exact next_move ..

theorem dupStep_move {handle : Nat} (h : dupStep r handle choice = some (r', next)) :
    FileMove r (.dup handle) r' next := by
  cases choice <;> simp only [dupStep, reduceCtorEq] at h
  split at h
  · obtain ⟨rfl, rfl⟩ := Prod.mk.inj (Option.some.inj h)
    exact .dup ‹_›
  · obtain ⟨rfl, rfl⟩ := Prod.mk.inj (Option.some.inj h)
    exact .dupBad

theorem closeStep_move {handle : Nat} (h : closeStep r handle choice = some (r', next)) :
    FileMove r (.close handle) r' next := by
  cases choice <;> simp only [closeStep, reduceCtorEq] at h
  split at h
  · exact .close ‹_› (dropFd_move (Option.some.inj h))
  · obtain ⟨rfl, rfl⟩ := Prod.mk.inj (Option.some.inj h)
    exact .closeBad

theorem fdgetStep_move {handle : Nat} {call : FileCall}
    (h : fdgetStep r handle call choice = some (r', next)) :
    FileMove r (.fdget handle call) r' next := by
  cases choice <;> simp only [fdgetStep, reduceCtorEq] at h
  split at h
  · rename_i hfile
    obtain ⟨rfl, rfl⟩ := Prod.mk.inj (Option.some.inj h)
    cases call with
    | use => exact .fdgetUse hfile.1 hfile.2
    | iocResize => exact .fdgetResize hfile.1 hfile.2
    | iocExport => exact .fdgetExport hfile.1 hfile.2
  · obtain ⟨rfl, rfl⟩ := Prod.mk.inj (Option.some.inj h)
    exact .fdgetBad

inductive ExportMove (r : Registry) (handle : Nat) : ExportPc → Registry → DynLocal → Prop
  | name {dev : DevPtr} : ExportMove r handle (.name dev) r (.exporting handle (.get dev))
  | get {dev : DevPtr} :
      ExportMove r handle (.get dev) (r.pin dev) (.exporting handle (.dmaBufExport dev))
  | dmaBufExport {dev : DevPtr} :
      ExportMove r handle (.dmaBufExport dev) (r.addHandle ⟨.dmabuf, dev, 0, 1⟩)
        (.exporting handle (.dmaBufFd r.nextHandle))
  | dmaBufExportFail {dev : DevPtr} {e : Errno} :
      ExportMove r handle (.dmaBufExport dev) r (dev.unpin (.fdput handle (.error e)))
  | dmaBufFd {buf : Nat} :
      ExportMove r handle (.dmaBufFd buf)
        (r.setHandle buf { r.handles buf with
          fds := (r.handles buf).fds + 1
          busy := (r.handles buf).busy - 1 }) (.exporting handle (.putUser buf))
  | dmaBufFdFail {buf : Nat} {e : Errno} {r' : Registry} {next : DynLocal}
      (h : DropMove r buf { r.handles buf with busy := (r.handles buf).busy - 1 }
        (.fdput handle (.error e)) r' next) : ExportMove r handle (.dmaBufFd buf) r' next
  | putUser {buf : Nat} : ExportMove r handle (.putUser buf) r (.fdput handle (.handle buf))
  | putUserFail {buf : Nat} :
      ExportMove r handle (.putUser buf) r (.exporting handle (.closeFd buf))
  | closeFd {buf : Nat} {r' : Registry} {next : DynLocal} (hfds : 0 < (r.handles buf).fds)
      (h : DropMove r buf { r.handles buf with fds := (r.handles buf).fds - 1 }
        (.fdput handle (.error .EFAULT)) r' next) : ExportMove r handle (.closeFd buf) r' next
  | closeFdBad {buf : Nat} :
      ExportMove r handle (.closeFd buf) r (.fdput handle (.error .EFAULT))

theorem exportStep_move {handle : Nat} {pc : ExportPc}
    (h : exportStep r handle pc choice = some (r', next)) : ExportMove r handle pc r' next := by
  cases pc with
  | dmaBufFd buf =>
      cases choice <;> simp only [exportStep, reduceCtorEq] at h
      · obtain ⟨rfl, rfl⟩ := Prod.mk.inj (Option.some.inj h)
        exact .dmaBufFd
      · exact .dmaBufFdFail (dropBusy_move (Option.some.inj h))
  | closeFd buf =>
      cases choice <;> simp only [exportStep, reduceCtorEq] at h
      split at h
      · exact .closeFd ‹_› (dropFd_move (Option.some.inj h))
      · obtain ⟨rfl, rfl⟩ := Prod.mk.inj (Option.some.inj h)
        exact .closeFdBad
  | dmaBufExport | putUser =>
      cases choice <;> simp only [exportStep, reduceCtorEq] at h
      all_goals
        obtain ⟨rfl, rfl⟩ := Prod.mk.inj (Option.some.inj h)
        constructor
  | name | get =>
      cases choice <;> simp only [exportStep, reduceCtorEq] at h
      obtain ⟨rfl, rfl⟩ := Prod.mk.inj (Option.some.inj h)
      constructor

end Files

section Driver

-- Every step of the registry, by the function it is a step of.
inductive DynMove (r : Registry) : DynChoice → DynLocal → Registry → DynLocal → Prop
  | enter {here : DynLocal} {request : DynRequest} (hhere : here = .idle ∨ ∃ ret, here = .done ret)
      (hloaded : r.loaded = true) (hreq : request ≠ .unload) :
      DynMove r (.start request) here r request.enter
  | enterUnload {here : DynLocal} (hhere : here = .idle ∨ ∃ ret, here = .done ret)
      (hloaded : r.loaded = true) :
      DynMove r (.start .unload) here { r with loaded := false } .unload
  | create {choice : DynChoice} {pc : CreatePc} {r' : Registry} {next : DynLocal}
      (h : CreateMove r pc r' next) : DynMove r choice (.create pc) r' next
  | getUser {choice : DynChoice} {id : Int} : DynMove r choice (.getUser id) r (.unlink id false)
  | getUserFail {choice : DynChoice} {id : Int} :
      DynMove r choice (.getUser id) r (.done (.error .EFAULT))
  | unlink {choice : DynChoice} {id : Int} {rollback : Bool} {r' : Registry} {next : DynLocal}
      (h : UnlinkMove r id rollback r' next) : DynMove r choice (.unlink id rollback) r' next
  | teardown {choice : DynChoice} {ptr : Nat} {pc : TeardownPc} {cont : Cont} {r' : Registry}
      {next : DynLocal} (h : TeardownMove r ptr cont pc r' next) :
      DynMove r choice (.teardown ptr pc cont) r' next
  | put {choice : DynChoice} {ptr : Nat} {cont : Cont} {r' : Registry} {next : DynLocal}
      (h : PutMove r ptr cont r' next) : DynMove r choice (.put ptr cont) r' next
  | release {choice : DynChoice} {ptr : Nat} {cont : Cont} :
      DynMove r choice (.release ptr cont)
        { r.setDev ptr { r.devs ptr with
            mmap := false
            slots := false
            released := (r.devs ptr).released + 1 } with
          ida := r.ida.erase (r.devs ptr).minorOff } cont.resume
  | opening {choice : DynChoice} {pc : OpenPc} {r' : Registry} {next : DynLocal}
      (h : OpenMove r pc r' next) : DynMove r choice (.opening pc) r' next
  | file {choice : DynChoice} {here : DynLocal} {r' : Registry} {next : DynLocal}
      (h : FileMove r here r' next) : DynMove r choice here r' next
  | exporting {choice : DynChoice} {handle : Nat} {pc : ExportPc} {r' : Registry}
      {next : DynLocal} (h : ExportMove r handle pc r' next) :
      DynMove r choice (.exporting handle pc) r' next
  | unloadEnd {choice : DynChoice} (h : r.list = []) :
      DynMove r choice .unload { r with unloaded := true } (.done .ok)
  | unloadNext {choice : DynChoice} {ptr : Nat} {rest : List Nat} (h : r.list = ptr :: rest) :
      DynMove r choice .unload { r with list := rest } (.teardown ptr .deviceDestroy .unload)

variable {r r' : Registry} {here next : DynLocal} {choice : DynChoice}

theorem dynEnter_move (hhere : here = .idle ∨ ∃ ret, here = .done ret)
    (h : dynEnter r choice = some (r', next)) : DynMove r choice here r' next := by
  cases choice with
  | start request =>
      by_cases hl : r.loaded = true
      · by_cases hu : request = .unload
        · subst hu
          simp only [dynEnter, hl, if_true] at h
          obtain ⟨rfl, rfl⟩ := Prod.mk.inj (Option.some.inj h)
          exact .enterUnload hhere hl
        · have hreq : dynEnter r (.start request) = some (r, request.enter) := by
            cases request <;> simp_all [dynEnter]
          obtain ⟨rfl, rfl⟩ := Prod.mk.inj (Option.some.inj (hreq.symm.trans h))
          exact .enter hhere hl hu
      · cases request <;> simp [dynEnter, hl] at h
  | go | fail | id => cases h

theorem dynDriver_move {me : Nat} (h : dynDriver me choice here r = some (r', next)) :
    DynMove r choice here r' next := by
  cases here with
  | idle => exact dynEnter_move (Or.inl rfl) h
  | done ret => exact dynEnter_move (Or.inr ⟨ret, rfl⟩) h
  | create pc => exact .create (createStep_move h)
  | getUser id =>
      cases choice <;> simp only [dynDriver, reduceCtorEq] at h
      · obtain ⟨rfl, rfl⟩ := Prod.mk.inj (Option.some.inj h)
        exact .getUser
      · obtain ⟨rfl, rfl⟩ := Prod.mk.inj (Option.some.inj h)
        exact .getUserFail
  | unlink id rollback => exact .unlink (unlinkStep_move h)
  | teardown ptr pc cont => exact .teardown (teardownStep_move h)
  | put ptr cont =>
      cases choice <;> simp only [dynDriver, reduceCtorEq, Option.some.injEq] at h
      have hmove := krefPutStep_move r ptr cont
      rw [h] at hmove
      exact .put hmove
  | release ptr cont =>
      cases choice <;> simp only [dynDriver, releaseStep, reduceCtorEq] at h
      obtain ⟨rfl, rfl⟩ := Prod.mk.inj (Option.some.inj h)
      exact .release
  | opening pc => exact .opening (openStep_move h)
  | dup handle => exact .file (dupStep_move h)
  | close handle => exact .file (closeStep_move h)
  | closing dev cont =>
      cases choice <;> simp only [dynDriver, reduceCtorEq] at h
      obtain ⟨rfl, rfl⟩ := Prod.mk.inj (Option.some.inj h)
      exact .file .closing
  | fdget handle call => exact .file (fdgetStep_move h)
  | use handle dev =>
      cases choice <;> simp only [dynDriver, reduceCtorEq] at h
      obtain ⟨rfl, rfl⟩ := Prod.mk.inj (Option.some.inj h)
      exact .file .use
  | resizing handle dev =>
      cases choice <;> simp only [dynDriver, resizingStep, reduceCtorEq] at h
      · obtain ⟨rfl, rfl⟩ := Prod.mk.inj (Option.some.inj h)
        exact .file .resizing
      · obtain ⟨rfl, rfl⟩ := Prod.mk.inj (Option.some.inj h)
        exact .file .resizingFail
  | exporting handle pc => exact .exporting (exportStep_move h)
  | fdput handle ret =>
      cases choice <;> simp only [dynDriver, reduceCtorEq] at h
      exact .file (.fdput (dropBusy_move (Option.some.inj h)))
  | unload =>
      cases choice <;> simp only [dynDriver, unloadStep, reduceCtorEq] at h
      split at h
      · obtain ⟨rfl, rfl⟩ := Prod.mk.inj (Option.some.inj h)
        exact .unloadEnd ‹_›
      · obtain ⟨rfl, rfl⟩ := Prod.mk.inj (Option.some.inj h)
        exact .unloadNext ‹_›

theorem dyn_step_move {s t : DynSystem} {act : Act DynChoice} (h : step dynDriver s act = some t) :
    ∃ r here, DynMove s.shared act.choice (s.locals act.pid) r here ∧
      t = s.put act.pid (r, here) := by
  obtain ⟨⟨r, here⟩, hp, rfl⟩ := step_eq_some h
  exact ⟨r, here, dynDriver_move hp, rfl⟩

end Driver

end Kbuf
