import Kbuf.Dyn.Instances
import Kbuf.Dyn.Unload

namespace Kbuf

open Interleaving Tally

section Definitions

-- The id that a request has yet to look for in the list: a DESTROY, or a CREATE whose
-- put_user may fail.
def DynLocal.target : DynLocal → Option Int
  | .getUser id | .unlink id _ => some id
  | .create (.putUser off) => some off
  | _ => none

def DynLocal.addresses (off : Nat) (here : DynLocal) : Prop := here.target = some (off : Int)

-- kbuf_dyn_create lists a device only while no other request with its id is under way.
def ListsAlone (s : DynSystem) (act : Act DynChoice) : Prop :=
  ∀ ptr, s.locals act.pid = .create (.listAdd ptr) →
    ∀ q, ¬(s.locals q).addresses (s.shared.devs ptr).minorOff

-- The process has not begun another call in these steps.
def SameCall (p : Nat) (acts : List (Act DynChoice)) : Prop :=
  ∀ act ∈ acts, act.pid = p → ∀ request, act.choice ≠ .start request

-- The answer to the next step of a process, for a CREATE that has just listed its
-- device the answer of put_user.
def nextAnswer (p : Nat) (acts : List (Act DynChoice)) : Option DynChoice :=
  (acts.find? fun act => act.pid = p).map Act.choice

-- Where a CREATE can be that has listed the device `ptr` under the id `off`.
def DynLocal.afterListing (ptr off : Nat) : DynLocal → Prop
  | .create (.putUser other) => other = off
  | .unlink id rollback => id = off ∧ rollback = true
  | .teardown other _ (.ret _) | .release other (.ret _) => other = ptr
  | .done _ => True
  | _ => False

end Definitions

section Moves

variable {r r' : Registry} {here next : DynLocal} {choice : DynChoice}

-- What a step does to the list, and where it is taken.
inductive ListEffect (r : Registry) (here : DynLocal) : List Nat → Prop
  | same : ListEffect r here r.list
  | listed {ptr : Nat} (h : here = .create (.listAdd ptr)) : ListEffect r here (r.list ++ [ptr])
  | unlinked {ptr : Nat} {id : Int} {rollback : Bool} (h : here = .unlink id rollback)
      (hfind : r.find id = some ptr) : ListEffect r here (r.list.erase ptr)
  | unloaded {ptr : Nat} (h : here = .unload) : ListEffect r here (r.list.erase ptr)

theorem PutMove.list_eq {ptr : Nat} {cont : Cont} (h : PutMove r ptr cont r' next) :
    r'.list = r.list := by
  cases h <;> rfl

theorem DropMove.list_eq {handle : Nat} {value : Handle} {cont : Cont}
    (h : DropMove r handle value cont r' next) : r'.list = r.list := by
  cases h <;> rfl

theorem FileMove.list_eq (h : FileMove r here r' next) : r'.list = r.list := by
  cases h with
  | close _ h | fdput h => exact h.list_eq
  | _ => rfl

theorem ExportMove.list_eq {handle : Nat} {pc : ExportPc} (h : ExportMove r handle pc r' next) :
    r'.list = r.list := by
  cases h with
  | @get dev => cases dev <;> rfl
  | dmaBufFdFail h | closeFd _ h => exact h.list_eq
  | _ => rfl

theorem TeardownMove.list_eq {ptr : Nat} {cont : Cont} {pc : TeardownPc}
    (h : TeardownMove r ptr cont pc r' next) : r'.list = r.list := by
  cases h with
  | put h => exact h.list_eq
  | deviceDestroy | cdevDel => rfl

theorem ListEffect.of_eq (h : r'.list = r.list) : ListEffect r here r'.list := by
  rw [h]
  exact .same

theorem DynMove.list_effect (h : DynMove r choice here r' next) : ListEffect r here r'.list := by
  cases h with
  | create h =>
      cases h with
      | listAdd => exact .listed rfl
      | _ => exact .same
  | unlink h =>
      cases h with
      | missing => exact .same
      | found hfind => exact .unlinked rfl hfind
  | teardown h => exact .of_eq h.list_eq
  | put h => exact .of_eq h.list_eq
  | opening h => cases h <;> exact .same
  | file h => exact .of_eq h.list_eq
  | exporting h => exact .of_eq h.list_eq
  | unloadNext hlist =>
      obtain ⟨herase, -⟩ := erase_head hlist
      dsimp only
      rw [herase]
      exact .unloaded rfl
  | enter | enterUnload | getUser | getUserFail | release | unloadEnd => exact .same

theorem not_addresses_resume (off : Nat) (cont : Cont) : ¬cont.resume.addresses off := by
  cases cont <;> exact nofun

theorem not_addresses_unpin (off : Nat) (dev : DevPtr) (cont : Cont) :
    ¬(dev.unpin cont).addresses off :=
  unpin_cases dev cont (not_addresses_resume off cont) fun _ => nofun

theorem not_addresses_dispose (off : Nat) (value : Handle) (cont : Cont) :
    ¬(value.dispose cont).addresses off :=
  dispose_cases value cont nofun (not_addresses_unpin off value.dev cont)

theorem PutMove.not_addresses {ptr : Nat} {cont : Cont} (h : PutMove r ptr cont r' next)
    (off : Nat) : ¬next.addresses off := by
  cases h with
  | last => exact nofun
  | more => exact not_addresses_resume off cont

theorem DropMove.not_addresses {handle : Nat} {value : Handle} {cont : Cont}
    (h : DropMove r handle value cont r' next) (off : Nat) : ¬next.addresses off := by
  cases h with
  | kept => exact not_addresses_resume off cont
  | last => exact not_addresses_dispose off value cont

theorem FileMove.not_addresses (h : FileMove r here r' next) (off : Nat) :
    ¬next.addresses off := by
  cases h with
  | close _ h | fdput h => exact h.not_addresses off
  | closing => exact not_addresses_unpin off _ _
  | _ => exact nofun

theorem ExportMove.not_addresses {handle : Nat} {pc : ExportPc}
    (h : ExportMove r handle pc r' next) (off : Nat) : ¬next.addresses off := by
  cases h with
  | dmaBufExportFail => exact not_addresses_unpin off _ _
  | dmaBufFdFail h | closeFd _ h => exact h.not_addresses off
  | _ => exact nofun

-- A request with the id is new, has just listed a device with it, or was one before.
theorem DynMove.addresses {off : Nat} (h : DynMove r choice here r' next)
    (hnext : next.addresses off) :
    choice = .start (.destroy off) ∨
      (∃ ptr, here = .create (.listAdd ptr) ∧ (r.devs ptr).minorOff = off) ∨
      here.addresses off := by
  cases h with
  | @enter _ request =>
      cases request with
      | destroy id =>
          left
          rw [show id = off from Option.some.inj hnext]
      | _ => cases hnext
  | create h =>
      cases h with
      | listAdd => exact Or.inr (Or.inl ⟨_, rfl, Int.ofNat.inj (Option.some.inj hnext)⟩)
      | putUserFail => exact Or.inr (Or.inr hnext)
      | _ => cases hnext
  | getUser => exact Or.inr (Or.inr hnext)
  | unlink h => cases h <;> cases hnext
  | teardown h =>
      cases h with
      | put h => exact absurd hnext (h.not_addresses off)
      | deviceDestroy | cdevDel => cases hnext
  | put h => exact absurd hnext (h.not_addresses off)
  | release => exact absurd hnext (not_addresses_resume off _)
  | opening h => cases h <;> cases hnext
  | file h => exact absurd hnext (h.not_addresses off)
  | exporting h => exact absurd hnext (h.not_addresses off)
  | enterUnload | getUserFail | unloadEnd | unloadNext => cases hnext

theorem find_minorOff {id : Int} {ptr : Nat} (h : r.find id = some ptr) :
    ((r.devs ptr).minorOff : Int) = id := by
  simpa using List.find?_some h

-- The call that listed the device goes on with it only, if no other listed device
-- has the id while it still has to look for it.
theorem DynMove.afterListing {ptr off : Nat} (h : DynMove r choice here r' next)
    (hhere : here.afterListing ptr off) (hcall : ∀ request, choice ≠ .start request)
    (hown : here.addresses off → ∀ y ∈ r.list, (r.devs y).minorOff = off → y = ptr) :
    next.afterListing ptr off ∧ ∀ y ∈ r.list, y ∉ r'.list → y = ptr := by
  have hsame (hlist : r'.list = r.list) : ∀ y ∈ r.list, y ∉ r'.list → y = ptr := by
    intro y hmem hnot
    rw [hlist] at hnot
    exact absurd hmem hnot
  cases h with
  | enter | enterUnload => exact absurd rfl (hcall _)
  | create h =>
      cases h with
      | putUser => exact ⟨trivial, hsame rfl⟩
      | putUserFail => exact ⟨⟨congrArg Int.ofNat hhere, rfl⟩, hsame rfl⟩
      | _ => exact hhere.elim
  | unlink h =>
      cases h with
      | missing => exact ⟨trivial, hsame rfl⟩
      | @found other hfind =>
          have hoff : (r.devs other).minorOff = off :=
            Int.ofNat.inj ((find_minorOff hfind).trans hhere.1)
          have hptr : other = ptr := hown (congrArg some hhere.1) other (find_mem hfind) hoff
          refine ⟨hptr, fun y hmem hnot => ?_⟩
          by_contra hne
          exact hnot ((List.mem_erase_of_ne fun hy => hne (hy.trans hptr)).mpr hmem)
  | @teardown _ other pc cont _ _ h =>
      cases cont with
      | ret value =>
          refine ⟨?_, hsame h.list_eq⟩
          cases h with
          | deviceDestroy | cdevDel => exact hhere
          | put h =>
              cases h with
              | last => exact hhere
              | more => trivial
      | fdput | unload => exact hhere.elim
  | @release _ _ cont =>
      cases cont with
      | ret value => exact ⟨trivial, hsame rfl⟩
      | fdput | unload => exact hhere.elim
  | file h => cases h <;> exact hhere.elim
  | getUser | getUserFail | put | opening | exporting | unloadEnd | unloadNext =>
      exact hhere.elim

end Moves

section Loaded

-- Nobody unloads the module while others may still enter it.
def UnloadsOnce (s : DynSystem) : Prop :=
  s.shared.loaded = true → ∀ p, (s.locals p).unloads = false

variable {s t : DynSystem} {act : Act DynChoice}

theorem DynMove.loaded_before {r r' : Registry} {here next : DynLocal} {choice : DynChoice}
    (h : DynMove r choice here r' next) (hloaded : r'.loaded = true) : r.loaded = true := by
  cases hu : here.unloads with
  | true =>
      obtain ⟨hl, -⟩ := h.unloads hu
      exact hl.symm.trans hloaded
  | false =>
      rcases h.flags hu with ⟨hflags, -⟩ | ⟨-, -, hl, -⟩
      · exact hflags.loaded.symm.trans hloaded
      · exact absurd (hl.symm.trans hloaded) Bool.noConfusion

theorem unloadsOnce_step (h : UnloadsOnce s) (hstep : step dynDriver s act = some t) :
    UnloadsOnce t := by
  obtain ⟨r', next, hmove, rfl⟩ := dyn_step_move hstep
  intro hloaded
  have hnone := h (hmove.loaded_before hloaded)
  rcases hmove.flags (hnone act.pid) with ⟨-, hnext⟩ | ⟨-, -, hl, -⟩
  · exact State.forall_put (P := fun _ (here : DynLocal) => here.unloads = false) hnext
      fun p _ => hnone p
  · exact absurd (hl.symm.trans hloaded) Bool.noConfusion

end Loaded

section Answers

variable {p : Nat} {past : List (Act DynChoice)} {act : Act DynChoice}

theorem nextAnswer_of_some {choice : DynChoice} (h : nextAnswer p past = some choice) :
    nextAnswer p (past ++ [act]) = some choice := by
  obtain ⟨first, hfirst, rfl⟩ := Option.map_eq_some_iff.mp h
  rw [nextAnswer, List.find?_append, hfirst]
  rfl

theorem nextAnswer_snoc (h : nextAnswer p past = none) :
    nextAnswer p (past ++ [act]) = if act.pid = p then some act.choice else none := by
  have hnone : past.find? (fun act => act.pid = p) = none := Option.map_eq_none_iff.mp h
  rw [nextAnswer, List.find?_append, hnone]
  by_cases hp : act.pid = p
  · simp [hp]
  · simp [hp]

end Answers

end Kbuf
