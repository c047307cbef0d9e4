import Kbuf.Machine
import Kbuf.Dyn.Moves

namespace Kbuf

open Interleaving

section Fleet

-- All devices of the module: the registry, and what the processes share of each one.
structure Fleet where
  registry : Registry
  worlds : DevPtr → World

-- A process: where it is in opening, closing and the like, and where it is in the file
-- operation that it runs meanwhile.
structure FleetLocal where
  outer : DynLocal
  inner : Local

inductive FleetChoice where
  | dyn (choice : DynChoice)
  | io (choice : Choice)

def Local.resting : Local → Bool
  | .idle | .done _ => true
  | _ => false

-- The device that a file operation is running on.
def DynLocal.runsOn : DynLocal → Option DevPtr
  | .use _ dev | .resizing _ dev => some dev
  | _ => none

-- One request per file operation, and KBUF_IOCRESIZE is one of its own.
def FleetLocal.starts (here : FleetLocal) (request : Request) : Bool :=
  match here.inner, here.outer, request with
  | .idle, .resizing .., .resize _ => true
  | .idle, .use .., .resize _ => false
  | .idle, .use .., _ => true
  | _, _, _ => false

def FleetLocal.goesOn (here : FleetLocal) : Choice → Bool
  | .start request => here.starts request
  | .go | .signal | .spurious => true

-- Whether kbuf_ioc_resize can return so.
def Local.resized : Local → DynChoice → Bool
  | .done (.status (.ok _)), .go => true
  | .done (.status (.error e)), .fail e' => e = e'
  | _, _ => false

-- A file operation returns when its request has been served.
def FleetLocal.returns (here : FleetLocal) (choice : DynChoice) : Bool :=
  match here.outer with
  | .use .. => here.inner.resting
  | .resizing .. => here.inner.resized choice
  | _ => true

-- Every file operation begins outside the driver.
def FleetLocal.entered (here : FleetLocal) : Local :=
  match here.outer with
  | .fdget .. => .idle
  | _ => here.inner

-- The module as one process runs it. A file operation works on the device that its
-- file was bound to.
def fleet : Program Fleet FleetLocal FleetChoice := fun me choice here f =>
  match choice with
  | .dyn choice =>
      if here.returns choice then
        (dynDriver me choice here.outer f.registry).map fun (r, outer) =>
          ({ f with registry := r }, ⟨outer, here.entered⟩)
      else none
  | .io choice =>
      match here.outer.runsOn with
      | none => none
      | some dev =>
          if here.goesOn choice then
            (driver me choice here.inner (f.worlds dev)).map fun (w, inner) =>
              ({ f with worlds := Function.update f.worlds dev w }, { here with inner := inner })
          else none

abbrev FleetSystem := State Fleet FleetLocal

-- The module just loaded. A device that is yet to be created will start like the others.
def fleetBoot (ndevices : Nat) : FleetSystem where
  shared :=
    { registry := (dynBoot ndevices).shared
      worlds := fun _ => (boot freshDev).shared }
  locals := fun _ => ⟨.idle, .idle⟩

end Fleet

section Moves

variable {f f' : Fleet} {here next : FleetLocal} {me : Nat}

inductive FleetMove (me : Nat) (f : Fleet) (here : FleetLocal) :
    FleetChoice → Fleet → FleetLocal → Prop
  | dyn {choice : DynChoice} {r : Registry} {outer : DynLocal} (hret : here.returns choice = true)
      (h : dynDriver me choice here.outer f.registry = some (r, outer)) :
      FleetMove me f here (.dyn choice) { f with registry := r } ⟨outer, here.entered⟩
  | io {choice : Choice} {dev : DevPtr} {w : World} {inner : Local}
      (hdev : here.outer.runsOn = some dev) (hgo : here.goesOn choice = true)
      (h : driver me choice here.inner (f.worlds dev) = some (w, inner)) :
      FleetMove me f here (.io choice) { f with worlds := Function.update f.worlds dev w }
        { here with inner := inner }

theorem fleet_move {choice : FleetChoice} (h : fleet me choice here f = some (f', next)) :
    FleetMove me f here choice f' next := by
  cases choice with
  | dyn choice =>
      simp only [fleet] at h
      split at h
      · rename_i hret
        obtain ⟨⟨r, outer⟩, hd, heq⟩ := Option.map_eq_some_iff.mp h
        obtain ⟨rfl, rfl⟩ := Prod.mk.inj heq
        exact .dyn hret hd
      · cases h
  | io choice =>
      simp only [fleet] at h
      split at h
      · cases h
      · rename_i dev hdev
        split at h
        · rename_i hgo
          obtain ⟨⟨w, inner⟩, hd, heq⟩ := Option.map_eq_some_iff.mp h
          obtain ⟨rfl, rfl⟩ := Prod.mk.inj heq
          exact .io hdev hgo hd
        · cases h

theorem fleet_step_move {s t : FleetSystem} {act : Act FleetChoice}
    (h : step fleet s act = some t) :
    ∃ f next, FleetMove act.pid s.shared (s.locals act.pid) act.choice f next ∧
      t = s.put act.pid (f, next) := by
  obtain ⟨⟨f, next⟩, hp, rfl⟩ := step_eq_some h
  exact ⟨f, next, fleet_move hp, rfl⟩

end Moves

section Registry

-- The registry's side of the module.
def registryOf (s : FleetSystem) : DynSystem := s.map Fleet.registry FleetLocal.outer

def pickDyn (_ : FleetSystem) (act : Act FleetChoice) : Option (Act DynChoice) :=
  match act.choice with
  | .dyn choice => some ⟨act.pid, choice⟩
  | .io _ => none

variable {s t : FleetSystem} {act : Act FleetChoice}

theorem registryOf_put (s : FleetSystem) (p : Nat) (f : Fleet) (next : FleetLocal) :
    registryOf (s.put p (f, next)) = (registryOf s).put p (f.registry, next.outer) :=
  State.map_put Fleet.registry FleetLocal.outer s p (f, next)

theorem registryOf_stay (h : step fleet s act = some t) (hpick : pickDyn s act = none) :
    registryOf t = registryOf s := by
  obtain ⟨f, next, hmove, rfl⟩ := fleet_step_move h
  obtain ⟨pid, choice⟩ := act
  dsimp only at hmove hpick
  cases hmove with
  | dyn => cases hpick
  | io =>
      rw [registryOf_put]
      simp [registryOf, State.map, State.put]

theorem registryOf_step {own : Act DynChoice} (h : step fleet s act = some t)
    (hpick : pickDyn s act = some own) :
    step dynDriver (registryOf s) own = some (registryOf t) := by
  obtain ⟨f, next, hmove, rfl⟩ := fleet_step_move h
  obtain ⟨pid, choice⟩ := act
  dsimp only at hmove hpick
  cases hmove with
  | dyn _ hd =>
      obtain rfl := Option.some.inj hpick
      rw [registryOf_put]
      exact Option.map_eq_some_iff.mpr ⟨_, hd, rfl⟩
  | io => cases hpick

theorem registry_run {ndevices : Nat} {acts : List (Act FleetChoice)}
    (hrun : run fleet (fleetBoot ndevices) acts = some s) :
    run dynDriver (dynBoot ndevices) (selected fleet pickDyn (fleetBoot ndevices) acts) =
      some (registryOf s) := by
  have hstay (s : FleetSystem) (u : DynSystem) (act : Act FleetChoice) (t : FleetSystem)
      (hrel : u = registryOf s) (hstep : step fleet s act = some t) (hpick : pickDyn s act = none) :
      u = registryOf t := hrel.trans (registryOf_stay hstep hpick).symm
  have hmove (s : FleetSystem) (u : DynSystem) (act : Act FleetChoice) (t : FleetSystem)
      (own : Act DynChoice) (hrel : u = registryOf s) (hstep : step fleet s act = some t)
      (hpick : pickDyn s act = some own) :
      ∃ v, step dynDriver u own = some v ∧ v = registryOf t := by
    subst hrel
    exact ⟨registryOf t, registryOf_step hstep hpick, rfl⟩
  obtain ⟨u, hu, rfl⟩ := run_selected hstay hmove rfl hrun
  exact hu

end Registry

section Devices

-- The steps of the file operations on one device.
def pickOn (dev : DevPtr) (s : FleetSystem) (act : Act FleetChoice) : Option (Act Choice) :=
  match act.choice with
  | .dyn _ => none
  | .io choice =>
      if (s.locals act.pid).outer.runsOn = some dev then some ⟨act.pid, choice⟩ else none

-- A process of the module next to the same process with the device alone: in a file
-- operation on the device both are at the same point, where not having begun and having
-- returned count as the same. Otherwise it is not in the device.
def FleetLocal.Abreast (dev : DevPtr) (here : FleetLocal) (alone : Local) : Prop :=
  if here.outer.runsOn = some dev then
    alone = here.inner ∨ (alone.resting = true ∧ here.inner.resting = true)
  else alone.resting = true

-- The module next to a device alone.
structure Beside (dev : DevPtr) (s : FleetSystem) (u : System) : Prop where
  world : u.shared = s.shared.worlds dev
  locals : ∀ p, (s.locals p).Abreast dev (u.locals p)

variable {s t : FleetSystem} {u : System} {dev : DevPtr}

theorem driver_resting {me : Nat} {choice : Choice} {here : Local} (w : World)
    (h : here.resting = true) : driver me choice here w = enterStep w choice := by
  cases here with
  | idle | done => rfl
  | _ => cases h

theorem runsOn_resume (cont : Cont) : cont.resume.runsOn = none := by
  cases cont <;> rfl

theorem runsOn_unpin (dev : DevPtr) (cont : Cont) : (dev.unpin cont).runsOn = none :=
  unpin_cases dev cont (runsOn_resume cont) fun _ => rfl

theorem runsOn_dispose (value : Handle) (cont : Cont) : (value.dispose cont).runsOn = none :=
  dispose_cases value cont rfl (runsOn_unpin value.dev cont)

-- A file operation begins in the step that takes hold of the file, and nowhere else.
theorem DynMove.runsOn {r r' : Registry} {choice : DynChoice} {here next : DynLocal}
    (h : DynMove r choice here r' next) (hnext : next.runsOn = some dev) :
    ∃ handle call, here = .fdget handle call := by
  have hdrop {handle : Nat} {value : Handle} {cont : Cont}
      (h : DropMove r handle value cont r' next) : next.runsOn = none := by
    cases h with
    | kept => exact runsOn_resume cont
    | last => exact runsOn_dispose value cont
  have hput {r : Registry} {ptr : Nat} {cont : Cont} (h : PutMove r ptr cont r' next) :
      next.runsOn = none := by
    cases h with
    | last => rfl
    | more => exact runsOn_resume cont
  have hnone (h : next.runsOn = none) : ∃ handle call, here = .fdget handle call :=
    absurd (h.symm.trans hnext) nofun
  cases h with
  | @enter _ request => cases request <;> cases hnext
  | create h => cases h <;> cases hnext
  | unlink h => cases h <;> cases hnext
  | teardown h =>
      cases h with
      | put h => exact hnone (hput h)
      | deviceDestroy | cdevDel => cases hnext
  | put h => exact hnone (hput h)
  | release => exact hnone (runsOn_resume _)
  | opening h => cases h <;> cases hnext
  | file h =>
      cases h with
      | close _ h | fdput h => exact hnone (hdrop h)
      | closing => exact hnone (runsOn_unpin _ _)
      | fdgetUse | fdgetResize | fdgetExport => exact ⟨_, _, rfl⟩
      | _ => cases hnext
  | exporting h =>
      cases h with
      | dmaBufExportFail => exact hnone (runsOn_unpin _ _)
      | dmaBufFdFail h | closeFd _ h => exact hnone (hdrop h)
      | _ => cases hnext
  | enterUnload | getUser | getUserFail | unloadEnd | unloadNext => cases hnext

-- A file operation does not return while its request is being served.
theorem FleetLocal.returns_rest {here : FleetLocal} {choice : DynChoice}
    (h : here.returns choice = true) (hdev : here.outer.runsOn = some dev) :
    here.inner.resting = true := by
  obtain ⟨outer, inner⟩ := here
  cases outer with
  | use => exact h
  | resizing =>
      cases inner with
      | idle | done => rfl
      | _ => cases h
  | _ => cases hdev

theorem FleetLocal.Abreast.rest {here : FleetLocal} {alone : Local} (h : here.Abreast dev alone)
    (hoff : here.outer.runsOn ≠ some dev) : alone.resting = true := by
  rwa [FleetLocal.Abreast, if_neg hoff] at h

theorem FleetLocal.Abreast.inside {here : FleetLocal} {alone : Local} (h : here.Abreast dev alone)
    (hon : here.outer.runsOn = some dev) :
    alone = here.inner ∨ (alone.resting = true ∧ here.inner.resting = true) := by
  rwa [FleetLocal.Abreast, if_pos hon] at h

-- A step of the registry takes a process into a file operation or out of it.
theorem FleetLocal.Abreast.dyn {here : FleetLocal} {alone : Local} {choice : DynChoice}
    {r r' : Registry} {next : DynLocal} (h : here.Abreast dev alone)
    (hret : here.returns choice = true) (hmove : DynMove r choice here.outer r' next) :
    FleetLocal.Abreast dev ⟨next, here.entered⟩ alone := by
  unfold FleetLocal.Abreast
  split
  · rename_i hnext
    obtain ⟨handle, call, hhere⟩ := hmove.runsOn hnext
    refine Or.inr ⟨h.rest (by rw [hhere]; nofun), ?_⟩
    simp only [FleetLocal.entered, hhere, Local.resting]
  · by_cases hon : here.outer.runsOn = some dev
    · rcases h.inside hon with rfl | ⟨hrest, -⟩
      · exact FleetLocal.returns_rest hret hon
      · exact hrest
    · exact h.rest hon

-- A step of the module outside the file operations on the device.
theorem Beside.stay {act : Act FleetChoice} (h : Beside dev s u) (hstep : step fleet s act = some t)
    (hpick : pickOn dev s act = none) : Beside dev t u := by
  obtain ⟨f, next, hmove, rfl⟩ := fleet_step_move hstep
  obtain ⟨pid, choice⟩ := act
  dsimp only at hmove hpick
  cases hmove with
  | dyn hret hd =>
      refine ⟨h.world, State.forall_put
        (P := fun p (here : FleetLocal) => here.Abreast dev (u.locals p)) ?_ fun p _ => h.locals p⟩
      exact (h.locals pid).dyn hret (dynDriver_move hd)
  | @io _ other w inner hdev hgo hd =>
      have hne : dev ≠ other := by
        rintro rfl
        simp [pickOn, hdev] at hpick
      have hoff : (s.locals pid).outer.runsOn ≠ some dev := by
        rw [hdev]
        exact fun heq => hne (Option.some.inj heq).symm
      refine ⟨?_, State.forall_put
        (P := fun p (here : FleetLocal) => here.Abreast dev (u.locals p)) ?_ fun p _ => h.locals p⟩
      · rw [h.world]
        exact (Function.update_of_ne hne w s.shared.worlds).symm
      · rw [FleetLocal.Abreast, if_neg hoff]
        exact (h.locals pid).rest hoff

-- A step of a file operation on the device is one of the device alone.
theorem Beside.move {act : Act FleetChoice} {own : Act Choice} (h : Beside dev s u)
    (hstep : step fleet s act = some t) (hpick : pickOn dev s act = some own) :
    ∃ v, step driver u own = some v ∧ Beside dev t v := by
  obtain ⟨f, next, hmove, rfl⟩ := fleet_step_move hstep
  obtain ⟨pid, choice⟩ := act
  dsimp only at hmove hpick
  cases hmove with
  | dyn => cases hpick
  | @io choice other w inner hdev hgo hd =>
      by_cases hon : (s.locals pid).outer.runsOn = some dev
      · obtain rfl := Option.some.inj (hdev.symm.trans hon)
        simp only [pickOn, hdev, if_true, Option.some.injEq] at hpick
        subst hpick
        have hsame : driver pid choice (u.locals pid) u.shared = some (w, inner) := by
          rw [h.world, ← hd]
          rcases (h.locals pid).inside hdev with heq | ⟨halone, hinner⟩
          · rw [heq]
          · rw [driver_resting _ halone, driver_resting _ hinner]
        refine ⟨u.put pid (w, inner), Option.map_eq_some_iff.mpr ⟨_, hsame, rfl⟩, ?_, fun p => ?_⟩
        · exact (Function.update_self other w s.shared.worlds).symm
        · by_cases hp : p = pid
          · subst hp
            rw [State.put_locals_self, State.put_locals_self, FleetLocal.Abreast, if_pos hdev]
            exact Or.inl rfl
          · rw [State.put_locals_of_ne s _ hp, State.put_locals_of_ne u _ hp]
            exact h.locals p
      · simp [pickOn, hon] at hpick

-- Whatever the rest of the module does, each device runs as if it were alone.
theorem device_run {ndevices : Nat} {acts : List (Act FleetChoice)} (dev : DevPtr)
    (hrun : run fleet (fleetBoot ndevices) acts = some s) :
    ∃ u, run driver (boot freshDev) (selected fleet (pickOn dev) (fleetBoot ndevices) acts) =
      some u ∧ Beside dev s u := by
  have hboot : Beside dev (fleetBoot ndevices) (boot freshDev) := ⟨rfl, fun _ => rfl⟩
  exact run_selected (fun s u _ _ (h : Beside dev s u) => h.stay) (fun _ _ _ _ _ h => h.move)
    hboot hrun

end Devices

end Kbuf
