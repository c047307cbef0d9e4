import Kbuf.Blocking.Linearizable
import Kbuf.Dyn.Fleet
import Kbuf.Dyn.Instances

namespace Kbuf

open Interleaving Tally

section Definitions

-- Ids of instances: in range, no two alike. An instance that is listed, open or
-- exported has one.
structure DistinctMinors (r : Registry) : Prop where
  lt : ∀ ptr, (r.devs ptr).keepsMinor → (r.devs ptr).minorOff < KBUF_DYN_MAX
  inj : ∀ ptr other, (r.devs ptr).keepsMinor → (r.devs other).keepsMinor →
    (r.devs ptr).minorOff = (r.devs other).minorOff → ptr = other
  listed : ∀ ptr ∈ r.list, (r.devs ptr).keepsMinor
  bound : ∀ handle ptr, (r.handles handle).live = true → (r.handles handle).dev = .dyn ptr →
    (r.devs ptr).keepsMinor

-- The device number, counted from kbuf_base_devno.
def Registry.devno (r : Registry) : DevPtr → Nat
  | .static minor => minor
  | .dyn ptr => r.ndevices + (r.devs ptr).minorOff

def Registry.hasCdev (r : Registry) : DevPtr → Prop
  | .static minor => minor < r.ndevices
  | .dyn ptr => (r.devs ptr).cdev = true

def Registry.hasNode (r : Registry) : DevPtr → Prop
  | .static minor => minor < r.ndevices
  | .dyn ptr => (r.devs ptr).node = true

-- The device number is free when kbuf_dyn_create calls cdev_add, and has only the
-- cdev just added when it calls device_create.
structure FreeDevnos (s : DynSystem) : Prop where
  cdevAdd : ∀ p ptr dev, s.locals p = .create (.cdevAdd ptr) →
    s.shared.devno dev = s.shared.devno (.dyn ptr) → ¬s.shared.hasCdev dev ∧ ¬s.shared.hasNode dev
  deviceCreate : ∀ p ptr dev, s.locals p = .create (.deviceCreate ptr) →
    s.shared.devno dev = s.shared.devno (.dyn ptr) →
      ¬s.shared.hasNode dev ∧ (s.shared.hasCdev dev → dev = .dyn ptr)

-- What the lookup of kbuf_open comes to.
inductive Routed (r : Registry) (minor : Nat) : DynLocal → Prop
  | static (h : minor < r.ndevices) : Routed r minor (.opening (.opened (.static minor)))
  | dyn {ptr : Nat} (hm : r.ndevices ≤ minor) (hmem : ptr ∈ r.list)
      (hoff : (r.devs ptr).minorOff = minor - r.ndevices)
      (honly : ∀ other ∈ r.list, (r.devs other).minorOff = minor - r.ndevices → other = ptr) :
      Routed r minor (.opening (.opened (.dyn ptr)))
  | missing (hm : r.ndevices ≤ minor)
      (hnone : ∀ ptr ∈ r.list, (r.devs ptr).minorOff ≠ minor - r.ndevices) :
      Routed r minor (.done (.error .ENODEV))

-- How kbuf_open gets from a minor to a file, and what keeps the file on its device.
structure Routes (ndevices : Nat) (s : FleetSystem) : Prop where
  ndevices : s.shared.registry.ndevices = ndevices
  lookup : ∀ p minor choice t, (s.locals p).outer = .opening (.lookup minor) →
    step fleet s ⟨p, choice⟩ = some t → Routed s.shared.registry minor (t.locals p).outer
  opened : ∀ p dev choice t, (s.locals p).outer = .opening (.opened dev) →
    step fleet s ⟨p, choice⟩ = some t →
      (t.locals p).outer = .done (.handle s.shared.registry.nextHandle) ∧
        t.shared.registry.handles s.shared.registry.nextHandle = ⟨.file, dev, 1, 0⟩
  kept : ∀ act t handle, step fleet s act = some t → handle < s.shared.registry.nextHandle →
    (t.shared.registry.handles handle).dev = (s.shared.registry.handles handle).dev
  running : ∀ p handle dev, (s.locals p).outer.onFile = some (handle, dev) →
    (s.shared.registry.handles handle).live = true ∧ (s.shared.registry.handles handle).dev = dev

end Definitions

section Registry

variable {n : Nat} {s t : DynSystem}

theorem InstanceInv.distinctMinors (h : InstanceInv n s) : DistinctMinors s.shared where
  lt _ := h.minor_lt
  inj _ _ := h.minor_inj
  listed _ := h.books.kept_of_listed
  bound _ _ := h.books.kept_of_live

-- A device that is being created shares its number with nothing that is registered.
theorem InstanceInv.devno_free (h : InstanceInv n s) {p ptr : Nat} (hp : p < n)
    (htoken : 0 < (s.locals p).token ptr) {dev : DevPtr} (hne : dev ≠ .dyn ptr)
    (hdevno : s.shared.devno dev = s.shared.devno (.dyn ptr)) :
    ¬s.shared.hasCdev dev ∧ ¬s.shared.hasNode dev := by
  cases dev with
  | static minor =>
      have hge : ¬minor < s.shared.ndevices := by
        change minor = s.shared.ndevices + _ at hdevno
        omega
      exact ⟨hge, hge⟩
  | dyn other =>
      have hoff : (s.shared.devs other).minorOff = (s.shared.devs ptr).minorOff :=
        Nat.add_left_cancel hdevno
      have hkeeps := (h.ready hp).kept ptr (by omega)
      refine ⟨fun hcdev => hne ?_, fun hnode => hne ?_⟩
      · have hcdev : (s.shared.devs other).cdev = true := hcdev
        exact congrArg _ (h.minor_inj (h.kept_of_cdev (by simp [hcdev])) hkeeps hoff)
      · have hnode : (s.shared.devs other).node = true := hnode
        exact congrArg _ (h.minor_inj (h.kept_of_cdev (by simp [hnode])) hkeeps hoff)

theorem BooksInv.lt_of_here (h : BooksInv n s) {p : Nat} (hne : s.locals p ≠ .idle) : p < n := by
  by_contra hlt
  exact hne (h.idle p (Nat.le_of_not_lt hlt))

theorem BooksInv.creator (h : BooksInv n s) {p ptr : Nat} {pc : CreatePc}
    (hhere : s.locals p = .create pc) (howned : pc.owned = some ptr) :
    p < n ∧ 0 < (s.locals p).token ptr := by
  refine ⟨h.lt_of_here (by rw [hhere]; nofun), ?_⟩
  rw [hhere]
  exact CreatePc.owned_token howned

theorem InstanceInv.freeDevnos (h : InstanceInv n s) : FreeDevnos s where
  cdevAdd p ptr dev hhere hdevno := by
    obtain ⟨hp, htoken⟩ := h.books.creator hhere rfl
    by_cases hdev : dev = .dyn ptr
    · subst hdev
      have hcdev := (h.ready hp).cdev ptr htoken
      have hnode := (h.ready hp).node ptr htoken
      rw [hhere] at hcdev hnode
      exact ⟨fun hc => absurd ((congrArg Bool.toNat hc).symm.trans hcdev) nofun,
        fun hn => absurd ((congrArg Bool.toNat hn).symm.trans hnode) nofun⟩
    · exact h.devno_free hp htoken hdev hdevno
  deviceCreate p ptr dev hhere hdevno := by
    obtain ⟨hp, htoken⟩ := h.books.creator hhere rfl
    by_cases hdev : dev = .dyn ptr
    · subst hdev
      have hnode := (h.ready hp).node ptr htoken
      rw [hhere] at hnode
      exact ⟨fun hn => absurd ((congrArg Bool.toNat hn).symm.trans hnode) nofun, fun _ => rfl⟩
    · obtain ⟨hcdev, hnode⟩ := h.devno_free hp htoken hdev hdevno
      exact ⟨hnode, fun hc => absurd hc hcdev⟩

theorem open_step {p : Nat} {pc : OpenPc} (hhere : s.locals p = .opening pc)
    {act : Act DynChoice} (hpid : act.pid = p) (hstep : step dynDriver s act = some t) :
    ∃ r' next, OpenMove s.shared pc r' next ∧ t = s.put p (r', next) := by
  subst hpid
  obtain ⟨r', next, hmove, rfl⟩ := dyn_step_move hstep
  refine ⟨r', next, ?_, rfl⟩
  rw [hhere] at hmove
  generalize act.choice = choice at hmove
  cases hmove with
  | enter hidle | enterUnload hidle => rcases hidle with hidle | ⟨ret, hidle⟩ <;> cases hidle
  | file h => cases h
  | opening hopen => exact hopen

-- The lookup goes by the unique id.
theorem InstanceInv.routed (h : InstanceInv n s) {p minor : Nat}
    (hhere : s.locals p = .opening (.lookup minor)) {act : Act DynChoice} (hpid : act.pid = p)
    (hstep : step dynDriver s act = some t) : Routed s.shared minor (t.locals p) := by
  obtain ⟨r', next, hopen, rfl⟩ := open_step hhere hpid hstep
  rw [State.put_locals_self]
  cases hopen with
  | static hlt => exact .static hlt
  | missing hm hfind =>
      refine .missing hm fun ptr hmem hoff => ?_
      have hnot := List.find?_eq_none.mp hfind ptr hmem
      simp [hoff] at hnot
  | found hm hfind =>
      have hoff := List.find?_some hfind
      simp only [decide_eq_true_eq, Int.ofNat_inj] at hoff
      refine .dyn hm (find_mem hfind) hoff fun other hmem hother => ?_
      exact h.minor_inj (h.books.kept_of_listed hmem)
        (h.books.kept_of_listed (find_mem hfind)) (hother.trans hoff.symm)

theorem opened_binds {p : Nat} {dev : DevPtr} (hhere : s.locals p = .opening (.opened dev))
    {act : Act DynChoice} (hpid : act.pid = p) (hstep : step dynDriver s act = some t) :
    t.locals p = .done (.handle s.shared.nextHandle) ∧
      t.shared.handles s.shared.nextHandle = ⟨.file, dev, 1, 0⟩ := by
  obtain ⟨r', next, hopen, rfl⟩ := open_step hhere hpid hstep
  rw [State.put_locals_self]
  cases hopen with
  | opened => exact ⟨rfl, Function.update_self ..⟩

theorem fileDev_step (h : InstanceInv n s) {act : Act DynChoice} (hpid : act.pid < n)
    (hstep : step dynDriver s act = some t) {handle : Nat} (hlt : handle < s.shared.nextHandle) :
    (t.shared.handles handle).dev = (s.shared.handles handle).dev := by
  obtain ⟨r', next, hmove, rfl⟩ := dyn_step_move hstep
  exact (hmove.books (h.books.ready hpid)).dev_eq handle hlt

theorem ndevices_run {ndevices : Nat} {acts : List (Act DynChoice)}
    (hpids : ∀ act ∈ acts, act.pid < n) (hrun : run dynDriver (dynBoot ndevices) acts = some s) :
    s.shared.ndevices = ndevices := by
  have hstep (s : DynSystem) (act : Act DynChoice) (t : DynSystem)
      (h : InstanceInv n s ∧ s.shared.ndevices = ndevices) (hp : act.pid < n)
      (hs : step dynDriver s act = some t) :
      InstanceInv n t ∧ t.shared.ndevices = ndevices := by
    refine ⟨instanceInv_step h.1 hp hs, ?_⟩
    obtain ⟨r', next, hmove, rfl⟩ := dyn_step_move hs
    exact (hmove.minors (h.1.ready hp)).ndevices.trans h.2
  exact (run_invariant hstep ⟨instanceInv_boot ndevices n, rfl⟩
    (along_of_mem fun _ act hmem => hpids act hmem) hrun).2

end Registry

section Module

variable {ndevices : Nat} {acts : List (Act FleetChoice)} {s t : FleetSystem}

-- Outside the file operations only the registry can move a process.
theorem dyn_of_step {p : Nat} {choice : FleetChoice} (hstep : step fleet s ⟨p, choice⟩ = some t)
    (hoff : (s.locals p).outer.runsOn = none) :
    ∃ own, step dynDriver (registryOf s) ⟨p, own⟩ = some (registryOf t) := by
  cases choice with
  | dyn own => exact ⟨own, registryOf_step hstep rfl⟩
  | io =>
      obtain ⟨f, next, hmove, -⟩ := fleet_step_move hstep
      cases hmove with
      | io hdev => exact absurd (hdev.symm.trans hoff) nofun

theorem routes_run (hrun : run fleet (fleetBoot ndevices) acts = some s) : Routes ndevices s := by
  have hregistry := registry_run hrun
  obtain ⟨n, hpids⟩ := exists_pid_bound (selected fleet pickDyn (fleetBoot ndevices) acts)
  have hinv := instanceInv_run hpids hregistry
  refine ⟨ndevices_run hpids hregistry, fun p minor choice t hhere hstep => ?_,
    fun p dev choice t hhere hstep => ?_, fun act t handle hstep hlt => ?_,
    fun p handle dev hfile => ?_⟩
  · obtain ⟨own, hown⟩ := dyn_of_step hstep (by rw [hhere]; rfl)
    exact hinv.routed hhere rfl hown
  · obtain ⟨own, hown⟩ := dyn_of_step hstep (by rw [hhere]; rfl)
    exact opened_binds hhere rfl hown
  · cases hpick : pickDyn s act with
    | none =>
        have hstay := registryOf_stay hstep hpick
        exact congrArg (fun u : DynSystem => (u.shared.handles handle).dev) hstay
    | some own =>
        -- the process that takes the step may be a new one
        have hlate : InstanceInv (max n (own.pid + 1)) (registryOf s) :=
          instanceInv_run (fun other hmem => lt_max_of_lt_left (hpids other hmem)) hregistry
        exact fileDev_step hlate (by omega) (registryOf_step hstep hpick) hlt
  · exact ⟨hinv.books.live_of_onFile hfile, hinv.books.onFile p handle dev hfile⟩

-- Minors tell instances apart, kbuf_open leads to the instance of its minor, and the file
-- operations of each device run as if it were alone: reads take only what writes through
-- files of the same instance have put there.
theorem minors_identify_instances (hrun : run fleet (fleetBoot ndevices) acts = some s) :
    DistinctMinors s.shared.registry ∧ FreeDevnos (registryOf s) ∧ Routes ndevices s ∧
      ∀ dev, ∃ u, run driver (boot freshDev)
          (selected fleet (pickOn dev) (fleetBoot ndevices) acts) = some u ∧ Beside dev s u ∧
        ((∀ own ∈ selected fleet (pickOn dev) (fleetBoot ndevices) acts,
            ∀ request, own.choice = .start request → request.isTransfer = true) →
          ∀ (k count : Nat) (out : List UInt8),
            (s.shared.worlds dev).received[k]? = some (count, out) →
              ∃ message, (s.shared.worlds dev).sent[k]? = some message ∧
                out = message.take count) := by
  have hregistry := registry_run hrun
  obtain ⟨n, hpids⟩ := exists_pid_bound (selected fleet pickDyn (fleetBoot ndevices) acts)
  have hinv := instanceInv_run hpids hregistry
  refine ⟨hinv.distinctMinors, hinv.freeDevnos, routes_run hrun, fun dev => ?_⟩
  obtain ⟨u, hu, hbeside⟩ := device_run dev hrun
  refine ⟨u, hu, hbeside, fun htransfers k count out hk => ?_⟩
  have hdelivered := (blockingInv_run freshDev_wellformed rfl rfl
    (along_of_mem fun _ own hmem => htransfers own hmem) hu).delivered
  rw [← hbeside.world] at hk ⊢
  exact hdelivered.kth hk

end Module

section Traces

def onRegistry (acts : List (Act DynChoice)) : List (Act FleetChoice) :=
  acts.map fun act => ⟨act.pid, .dyn act.choice⟩

def onDevice (acts : List (Act Choice)) : List (Act FleetChoice) :=
  acts.map fun act => ⟨act.pid, .io act.choice⟩

-- A message is written to the first device, which is then closed and destroyed. A
-- second device gets its id and is read through the same minor.
def reusedMinor : List (Act FleetChoice) :=
  onRegistry (createDyn 0 0 ++ [⟨1, .start (.openMinor 1)⟩, ⟨1, .go⟩, ⟨1, .go⟩,
    ⟨1, .start (.use 0)⟩, ⟨1, .go⟩]) ++
  onDevice (⟨1, .start (.write true ⟨[7], 1⟩)⟩ :: proceed 1 7) ++
  onRegistry ([⟨1, .go⟩, ⟨1, .go⟩, ⟨1, .start (.close 0)⟩, ⟨1, .go⟩, ⟨1, .go⟩, ⟨1, .go⟩,
    ⟨0, .start (.destroy 0)⟩, ⟨0, .go⟩, ⟨0, .go⟩, ⟨0, .go⟩, ⟨0, .go⟩, ⟨0, .go⟩, ⟨0, .go⟩] ++
    createDyn 0 0 ++ [⟨1, .start (.openMinor 1)⟩, ⟨1, .go⟩, ⟨1, .go⟩, ⟨1, .start (.use 1)⟩,
    ⟨1, .go⟩]) ++
  onDevice (⟨1, .start (.read true ⟨4, 4⟩)⟩ :: proceed 1 4)

theorem minors_identify_instances_reusedMinor :
    ∃ s u, run fleet (fleetBoot 1) reusedMinor = some s ∧
      (s.shared.worlds (.dyn 0)).sent = [[7]] ∧
      (s.locals 1).outer = .use 1 (.dyn 1) ∧
      (s.locals 1).inner = .done (.bytes (.error .EAGAIN) []) ∧
      run driver (boot freshDev)
        (selected fleet (pickOn (.dyn 1)) (fleetBoot 1) reusedMinor) = some u ∧
      Beside (.dyn 1) s u := by
  obtain ⟨s, hrun, hend⟩ := Option.map_eq_some_iff.mp (show
    (run fleet (fleetBoot 1) reusedMinor).map (fun s => ((s.shared.worlds (.dyn 0)).sent,
      (s.locals 1).outer, (s.locals 1).inner)) =
        some ([[7]], .use 1 (.dyn 1), .done (.bytes (.error .EAGAIN) [])) from rfl)
  obtain ⟨hsent, houter, hinner⟩ := by simpa only [Prod.mk.injEq] using hend
  obtain ⟨-, -, -, hdevices⟩ := minors_identify_instances hrun
  obtain ⟨u, hu, hbeside, -⟩ := hdevices (.dyn 1)
  exact ⟨s, u, hrun, hsent, houter, hinner, hu, hbeside⟩

end Traces

end Kbuf
