import Kbuf.Dyn.Moves

namespace Kbuf

open Interleaving

section Unload

variable {r r' : Registry} {here next : DynLocal} {choice : DynChoice}

def DynLocal.resting : DynLocal → Bool
  | .idle | .done _ => true
  | _ => false

def Cont.unloads : Cont → Bool
  | .unload => true
  | .ret _ | .fdput .. => false

-- The process that runs kbuf_ctl_unregister.
def DynLocal.unloads : DynLocal → Bool
  | .unload => true
  | .teardown _ _ cont | .put _ cont | .release _ cont | .closing _ cont => cont.unloads
  | _ => false

-- The module reference: nothing of the module is in use when it is unloaded.
def UnloadsIdle (s : DynSystem) (act : Act DynChoice) : Prop :=
  act.choice = .start .unload →
    (∀ p, (s.locals p).resting = true) ∧ ∀ handle, (s.shared.handles handle).live = false

theorem unloads_resume (cont : Cont) : cont.resume.unloads = cont.unloads := by
  cases cont <;> rfl

theorem unloads_unpin (dev : DevPtr) (cont : Cont) :
    (dev.unpin cont).unloads = cont.unloads :=
  unpin_cases dev cont (unloads_resume cont) fun _ => rfl

theorem unloads_dispose (value : Handle) (cont : Cont) :
    (value.dispose cont).unloads = cont.unloads :=
  dispose_cases value cont rfl (unloads_unpin value.dev cont)

-- What the steps of the registry leave alone, apart from the two ends of an unload.
structure Flags (r r' : Registry) : Prop where
  loaded : r'.loaded = r.loaded
  unloaded : r'.unloaded = r.unloaded

theorem PutMove.flags {ptr : Nat} {cont : Cont} (h : PutMove r ptr cont r' next) :
    Flags r r' ∧ r'.handles = r.handles ∧ next.unloads = cont.unloads := by
  cases h with
  | last => exact ⟨⟨rfl, rfl⟩, rfl, rfl⟩
  | more => exact ⟨⟨rfl, rfl⟩, rfl, unloads_resume cont⟩

theorem TeardownMove.flags {ptr : Nat} {cont : Cont} {pc : TeardownPc}
    (h : TeardownMove r ptr cont pc r' next) :
    Flags r r' ∧ r'.handles = r.handles ∧ next.unloads = cont.unloads := by
  cases h with
  | deviceDestroy | cdevDel => exact ⟨⟨rfl, rfl⟩, rfl, rfl⟩
  | put h =>
      obtain ⟨hflags, hhandles, hnext⟩ := h.flags
      exact ⟨⟨hflags.loaded, hflags.unloaded⟩, hhandles, hnext⟩

theorem DropMove.flags {handle : Nat} {value : Handle} {cont : Cont}
    (h : DropMove r handle value cont r' next) : Flags r r' ∧ next.unloads = cont.unloads := by
  cases h with
  | kept => exact ⟨⟨rfl, rfl⟩, unloads_resume cont⟩
  | last => exact ⟨⟨rfl, rfl⟩, unloads_dispose value cont⟩

theorem ExportMove.flags {handle : Nat} {pc : ExportPc} (h : ExportMove r handle pc r' next) :
    Flags r r' ∧ next.unloads = false := by
  cases h with
  | @get dev => cases dev <;> exact ⟨⟨rfl, rfl⟩, rfl⟩
  | dmaBufExportFail => exact ⟨⟨rfl, rfl⟩, unloads_unpin _ _⟩
  | dmaBufFdFail h | closeFd _ h => exact h.flags
  | name | dmaBufExport | dmaBufFd | putUser | putUserFail | closeFdBad =>
      exact ⟨⟨rfl, rfl⟩, rfl⟩

theorem FileMove.flags (h : FileMove r here r' next) :
    Flags r r' ∧ next.unloads = here.unloads := by
  cases h with
  | close _ h | fdput h => exact h.flags
  | closing => exact ⟨⟨rfl, rfl⟩, unloads_unpin _ _⟩
  | dup | dupBad | closeBad | fdgetUse | fdgetResize | fdgetExport | fdgetBad | use | resizing
  | resizingFail => exact ⟨⟨rfl, rfl⟩, rfl⟩

theorem DynMove.loaded_of_resting (h : DynMove r choice here r' next)
    (hrest : here.resting = true) : r.loaded = true := by
  cases h with
  | enter _ hloaded | enterUnload _ hloaded => exact hloaded
  | file h => cases h <;> cases hrest
  | _ => cases hrest

-- A process that does not unload the module leaves it loaded, unless it begins to.
theorem DynMove.flags (h : DynMove r choice here r' next) (hnot : here.unloads = false) :
    (Flags r r' ∧ next.unloads = false) ∨
      (choice = .start .unload ∧ next = .unload ∧ r'.loaded = false ∧
        r'.unloaded = r.unloaded ∧ r'.handles = r.handles) := by
  cases h with
  | enterUnload => exact Or.inr ⟨rfl, rfl, rfl, rfl, rfl⟩
  | @enter _ request _ _ hreq =>
      left
      refine ⟨⟨rfl, rfl⟩, ?_⟩
      cases request with
      | unload => exact absurd rfl hreq
      | _ => rfl
  | create h => left; cases h <;> exact ⟨⟨rfl, rfl⟩, rfl⟩
  | opening h => left; cases h <;> exact ⟨⟨rfl, rfl⟩, rfl⟩
  | unlink h => left; cases h <;> exact ⟨⟨rfl, rfl⟩, rfl⟩
  | getUser | getUserFail => exact Or.inl ⟨⟨rfl, rfl⟩, rfl⟩
  | teardown h =>
      obtain ⟨hflags, -, hnext⟩ := h.flags
      exact Or.inl ⟨hflags, hnext.trans hnot⟩
  | put h =>
      obtain ⟨hflags, -, hnext⟩ := h.flags
      exact Or.inl ⟨hflags, hnext.trans hnot⟩
  | release => exact Or.inl ⟨⟨rfl, rfl⟩, (unloads_resume _).trans hnot⟩
  | file h =>
      obtain ⟨hflags, hnext⟩ := h.flags
      exact Or.inl ⟨hflags, hnext.trans hnot⟩
  | exporting h => exact Or.inl h.flags
  | unloadEnd | unloadNext => cases hnot

-- The one that does touches no file, and ends with an empty list.
theorem DynMove.unloads (h : DynMove r choice here r' next) (hu : here.unloads = true) :
    r'.loaded = r.loaded ∧ r'.handles = r.handles ∧
      ((next.unloads = true ∧ r'.unloaded = r.unloaded) ∨ (next = .done .ok ∧ r'.list = [])) := by
  cases h with
  | enter hhere | enterUnload hhere => rcases hhere with rfl | ⟨ret, rfl⟩ <;> cases hu
  | teardown h =>
      obtain ⟨hflags, hhandles, hnext⟩ := h.flags
      exact ⟨hflags.loaded, hhandles, Or.inl ⟨hnext.trans hu, hflags.unloaded⟩⟩
  | put h =>
      obtain ⟨hflags, hhandles, hnext⟩ := h.flags
      exact ⟨hflags.loaded, hhandles, Or.inl ⟨hnext.trans hu, hflags.unloaded⟩⟩
  | release => exact ⟨rfl, rfl, Or.inl ⟨(unloads_resume _).trans hu, rfl⟩⟩
  | file h =>
      cases h with
      | closing => exact ⟨rfl, rfl, Or.inl ⟨(unloads_unpin _ _).trans hu, rfl⟩⟩
      | _ => cases hu
  | unloadEnd hlist => exact ⟨rfl, rfl, Or.inr ⟨rfl, hlist⟩⟩
  | unloadNext => exact ⟨rfl, rfl, Or.inl ⟨rfl, rfl⟩⟩
  | create | getUser | getUserFail | unlink | opening | exporting => cases hu

end Unload

section Runs

structure UnloadInv (s : DynSystem) : Prop where
  loaded : s.shared.loaded = true →
    s.shared.unloaded = false ∧ ∀ p, (s.locals p).unloads = false
  unloading : s.shared.loaded = false →
    (∀ handle, (s.shared.handles handle).live = false) ∧
      ∃ p, ((s.locals p).resting = true ∨ (s.locals p).unloads = true) ∧
        ∀ q, q ≠ p → (s.locals q).resting = true
  unloaded : s.shared.unloaded = true →
    s.shared.list = [] ∧ ∀ p, (s.locals p).resting = true

theorem unloadInv_boot (ndevices : Nat) : UnloadInv (dynBoot ndevices) where
  loaded _ := ⟨rfl, fun _ => rfl⟩
  unloading h := nomatch h
  unloaded h := nomatch h

variable {s t : DynSystem} {act : Act DynChoice}

theorem UnloadInv.step_loaded (h : UnloadInv s) (hloaded : s.shared.loaded = true)
    (hidle : UnloadsIdle s act) (hstep : step dynDriver s act = some t) : UnloadInv t := by
  obtain ⟨r', next, hmove, rfl⟩ := dyn_step_move hstep
  obtain ⟨hunloaded, hnone⟩ := h.loaded hloaded
  rcases hmove.flags (hnone act.pid) with ⟨hflags, hnext⟩ | ⟨hchoice, rfl, hl, hu, hhandles⟩
  · have hl : r'.loaded = true := hflags.loaded.trans hloaded
    have hu : r'.unloaded = false := hflags.unloaded.trans hunloaded
    refine ⟨fun _ => ⟨hu, ?_⟩, fun hl' => ?_, fun hu' => ?_⟩
    · exact State.forall_put (P := fun _ (here : DynLocal) => here.unloads = false) hnext
        fun p _ => hnone p
    · exact absurd (hl.symm.trans hl') Bool.noConfusion
    · exact absurd (hu.symm.trans hu') Bool.noConfusion
  · obtain ⟨hrest, hdead⟩ := hidle hchoice
    refine ⟨fun hl' => ?_, fun _ => ⟨?_, act.pid, ?_, fun q hq => ?_⟩, fun hu' => ?_⟩
    · exact absurd (hl.symm.trans hl') Bool.noConfusion
    · intro handle
      rw [State.put_shared, hhandles]
      exact hdead handle
    · rw [State.put_locals_self]
      exact Or.inr rfl
    · rw [State.put_locals_of_ne s _ hq]
      exact hrest q
    · exact absurd ((hu.trans hunloaded).symm.trans hu') Bool.noConfusion

-- Once the unload has begun only its own process moves.
theorem UnloadInv.step_unloading (h : UnloadInv s) (hloaded : s.shared.loaded = false)
    (hstep : step dynDriver s act = some t) : UnloadInv t := by
  obtain ⟨r', next, hmove, rfl⟩ := dyn_step_move hstep
  obtain ⟨hdead, p, hp, hothers⟩ := h.unloading hloaded
  have hmoves : (s.locals act.pid).resting ≠ true := fun hrest =>
    absurd ((hmove.loaded_of_resting hrest).symm.trans hloaded) Bool.noConfusion
  have hpid : act.pid = p := by
    by_contra hne
    exact hmoves (hothers act.pid hne)
  subst hpid
  obtain ⟨hl, hhandles, hend⟩ := hmove.unloads (hp.resolve_left hmoves)
  refine ⟨fun hl' => ?_, fun _ => ⟨fun handle => ?_, act.pid, ?_, fun q hq => ?_⟩, fun hu' => ?_⟩
  · exact absurd ((hl.trans hloaded).symm.trans hl') Bool.noConfusion
  · rw [State.put_shared, hhandles]
    exact hdead handle
  · rw [State.put_locals_self]
    rcases hend with ⟨hnext, -⟩ | ⟨rfl, -⟩
    · exact Or.inr hnext
    · exact Or.inl rfl
  · rw [State.put_locals_of_ne s _ hq]
    exact hothers q hq
  · rcases hend with ⟨-, hu⟩ | ⟨rfl, hlist⟩
    · exact absurd ((h.unloaded (hu.symm.trans hu')).2 act.pid) hmoves
    · exact ⟨hlist, State.forall_put
        (P := fun _ (here : DynLocal) => here.resting = true) rfl hothers⟩

theorem unloadInv_step (h : UnloadInv s) (hidle : UnloadsIdle s act)
    (hstep : step dynDriver s act = some t) : UnloadInv t := by
  cases hloaded : s.shared.loaded with
  | true => exact h.step_loaded hloaded hidle hstep
  | false => exact h.step_unloading hloaded hstep

end Runs

end Kbuf
