import Kbuf.Dyn.Listing

namespace Kbuf

open Interleaving Tally

section Invariant

-- The end of a device that a CREATE of process `p` has listed: a DESTROY with its id was
-- issued since, the module is being unloaded, or put_user has failed.
def Ended (p off : Nat) (past : List (Act DynChoice)) (s : DynSystem) : Prop :=
  (∃ act ∈ past, act.choice = .start (.destroy off)) ∨ s.shared.loaded = false ∨
    ∃ e, nextAnswer p past = some (.fail e)

-- The steps since a CREATE of process `p` listed the device `x`.
structure ListedInv (n p x off : Nat) (past : List (Act DynChoice)) (s : DynSystem) : Prop where
  instances : InstanceInv n s
  once : UnloadsOnce s
  made : x < s.shared.nextDev
  minor : (s.shared.devs x).minorOff = off
  call : SameCall p past → (s.locals p).afterListing x off ∧
    ((s.locals p).addresses off →
      ∀ y ∈ s.shared.list, (s.shared.devs y).minorOff = off → y = x)
  stays : Ended p off past s ∨ (x ∈ s.shared.list ∧ ∀ q, (s.locals q).addresses off →
    q = p ∧ s.locals p = .create (.putUser off) ∧ nextAnswer p past = none)

variable {n p x off : Nat} {past : List (Act DynChoice)} {s t : DynSystem} {act : Act DynChoice}

theorem InstanceInv.lt_of_listed (h : InstanceInv n s) {y : Nat} (hmem : y ∈ s.shared.list) :
    y < s.shared.nextDev :=
  h.books.lt_of_kept (h.books.kept_of_listed hmem)

theorem InstanceInv.kept_of_listAdd (h : InstanceInv n s) {q y : Nat} (hq : q < n)
    (hhere : s.locals q = .create (.listAdd y)) :
    (s.shared.devs y).keepsMinor ∧ s.shared.list.count y = 0 := by
  have htoken := le_tally (DynLocal.token y) s.locals hq
  rw [hhere, (duties_inj (duties_of_owned rfl)).1] at htoken
  have htokens := h.books.tokens y
  exact ⟨h.books.kept_of_found (by omega), by omega⟩

-- A device that is about to be listed has an id of its own.
theorem InstanceInv.listAdd_minor (h : InstanceInv n s) {q y : Nat} (hq : q < n)
    (hhere : s.locals q = .create (.listAdd y)) (hmem : x ∈ s.shared.list) :
    (s.shared.devs y).minorOff ≠ (s.shared.devs x).minorOff := by
  intro heq
  obtain ⟨hkeeps, hcount⟩ := h.kept_of_listAdd hq hhere
  obtain rfl := h.minor_inj hkeeps (h.books.kept_of_listed hmem) heq
  exact absurd hmem (List.count_eq_zero.mp hcount)

theorem Ended.snoc {r' : Registry} {next : DynLocal} (h : Ended p off past s)
    (hmove : DynMove s.shared act.choice (s.locals act.pid) r' next) :
    Ended p off (past ++ [act]) (s.put act.pid (r', next)) := by
  rcases h with ⟨other, hmem, hother⟩ | hloaded | ⟨e, hanswer⟩
  · exact Or.inl ⟨other, List.mem_append_left _ hmem, hother⟩
  · right; left
    by_contra hne
    have hbefore := hmove.loaded_before (Bool.eq_true_of_not_eq_false hne)
    exact absurd (hbefore.symm.trans hloaded) Bool.noConfusion
  · exact Or.inr (Or.inr ⟨e, nextAnswer_of_some hanswer⟩)

-- Another device with the id is not listed while the call is under way.
theorem ListedInv.call_step (h : ListedInv n p x off past s) (halone : ListsAlone s act)
    (hpid : act.pid < n) {r' : Registry} {next : DynLocal}
    (hmove : DynMove s.shared act.choice (s.locals act.pid) r' next)
    (hminors : ∀ y, y < s.shared.nextDev → (r'.devs y).minorOff = (s.shared.devs y).minorOff)
    (hcall : SameCall p (past ++ [act])) :
    ((s.put act.pid (r', next)).locals p).afterListing x off ∧
      (((s.put act.pid (r', next)).locals p).addresses off →
        ∀ y ∈ r'.list, (r'.devs y).minorOff = off → y = x) := by
  obtain ⟨hafter, hown⟩ := h.call fun other hmem => hcall other (List.mem_append_left _ hmem)
  -- what was listed before the step
  have hold (haddr : (s.locals p).addresses off) {y : Nat} (hmem : y ∈ s.shared.list)
      (hoff : (r'.devs y).minorOff = off) : y = x := by
    rw [hminors y (h.instances.lt_of_listed hmem)] at hoff
    exact hown haddr y hmem hoff
  by_cases hp : act.pid = p
  · subst hp
    rw [State.put_locals_self]
    have hchoice := hcall act (List.mem_append_right _ List.mem_cons_self) rfl
    obtain ⟨hnext, -⟩ := hmove.afterListing hafter hchoice hown
    refine ⟨hnext, fun haddr y hmem hoff => ?_⟩
    rcases hmove.addresses haddr with hstart | ⟨ptr, hhere, -⟩ | hbefore
    · exact absurd hstart (hchoice _)
    · rw [hhere] at hafter
      exact hafter.elim
    · have heffect := hmove.list_effect
      generalize r'.list = list at heffect hmem
      cases heffect with
      | same => exact hold hbefore hmem hoff
      | listed hhere =>
          rw [hhere] at hafter
          exact hafter.elim
      | unlinked | unloaded => exact hold hbefore (List.mem_of_mem_erase hmem) hoff
  · rw [State.put_locals_of_ne s _ (Ne.symm hp)]
    refine ⟨hafter, fun haddr y hmem hoff => ?_⟩
    have heffect := hmove.list_effect
    generalize r'.list = list at heffect hmem
    cases heffect with
    | same => exact hold haddr hmem hoff
    | unlinked | unloaded => exact hold haddr (List.mem_of_mem_erase hmem) hoff
    | @listed ptr hhere =>
        rcases List.mem_append.mp hmem with hmem | hmem
        · exact hold haddr hmem hoff
        · obtain rfl := List.mem_singleton.mp hmem
          have hlt := h.instances.books.lt_of_kept (h.instances.kept_of_listAdd hpid hhere).1
          rw [hminors y hlt] at hoff
          rw [← hoff] at haddr
          exact absurd haddr (halone y hhere p)

theorem putUser_answer {r r' : Registry} {choice : DynChoice} {next : DynLocal} {me : Nat}
    (h : dynDriver me choice (.create (.putUser off)) r = some (r', next)) :
    (∃ e, choice = .fail e) ∨ next = .done (.id off) := by
  cases choice with
  | start | id => cases h
  | go =>
      obtain ⟨-, rfl⟩ := Prod.mk.inj (Option.some.inj h)
      exact Or.inr rfl
  | fail e => exact Or.inl ⟨e, rfl⟩

-- A listed device stays until one of the three things that end it.
theorem ListedInv.stays_step (h : ListedInv n p x off past s) (hpid : act.pid < n) {r' : Registry}
    {next : DynLocal} (hprog : dynDriver act.pid act.choice (s.locals act.pid) s.shared =
      some (r', next)) :
    Ended p off (past ++ [act]) (s.put act.pid (r', next)) ∨
      (x ∈ r'.list ∧ ∀ q, ((s.put act.pid (r', next)).locals q).addresses off →
        q = p ∧ (s.put act.pid (r', next)).locals p = .create (.putUser off) ∧
          nextAnswer p (past ++ [act]) = none) := by
  have hmove := dynDriver_move hprog
  rcases h.stays with hended | ⟨hlisted, haddr⟩
  · exact Or.inl (hended.snoc hmove)
  -- the device is still listed, and only its creator may address it
  by_cases hloaded : s.shared.loaded = false
  · have hended : Ended p off past s := Or.inr (Or.inl hloaded)
    exact Or.inl (hended.snoc hmove)
  have hkept : x ∈ r'.list := by
    have heffect := hmove.list_effect
    generalize r'.list = list at heffect
    cases heffect with
    | same => exact hlisted
    | listed => exact List.mem_append_left _ hlisted
    | @unlinked ptr id rollback hhere hfind =>
        refine (List.mem_erase_of_ne fun hx => ?_).mpr hlisted
        subst hx
        have hid : id = off := by rw [← find_minorOff hfind, h.minor]
        obtain ⟨hq, hcreate, -⟩ := haddr act.pid (by rw [hhere]; exact congrArg some hid)
        rw [← hq, hhere] at hcreate
        cases hcreate
    | unloaded hhere =>
        have hnone := h.once (Bool.eq_true_of_not_eq_false hloaded) act.pid
        rw [hhere] at hnone
        cases hnone
  by_cases hnext : next.addresses off
  · rcases hmove.addresses hnext with hstart | ⟨ptr, hhere, hoff⟩ | hbefore
    · exact Or.inl (Or.inl ⟨act, List.mem_append_right _ List.mem_cons_self, hstart⟩)
    · exact absurd (hoff.trans h.minor.symm) (h.instances.listAdd_minor hpid hhere hlisted)
    · -- put_user of the creator has failed
      obtain ⟨rfl, hcreate, hnone⟩ := haddr act.pid hbefore
      rw [hcreate] at hprog
      rcases putUser_answer hprog with ⟨e, he⟩ | hdone
      · left; right; right
        exact ⟨e, by rw [nextAnswer_snoc hnone, if_pos rfl, he]⟩
      · rw [hdone] at hnext
        cases hnext
  · refine Or.inr ⟨hkept, fun q hq => ?_⟩
    have hne : q ≠ act.pid := by
      intro hq'
      subst hq'
      rw [State.put_locals_self] at hq
      exact hnext hq
    rw [State.put_locals_of_ne s _ hne] at hq
    obtain ⟨rfl, hcreate, hnone⟩ := haddr q hq
    refine ⟨rfl, ?_, ?_⟩
    · rw [State.put_locals_of_ne s _ hne]
      exact hcreate
    · rw [nextAnswer_snoc hnone, if_neg (Ne.symm hne)]

theorem listedInv_step (h : ListedInv n p x off past s) (hok : ListsAlone s act ∧ act.pid < n)
    (hstep : step dynDriver s act = some t) : ListedInv n p x off (past ++ [act]) t := by
  obtain ⟨halone, hpid⟩ := hok
  have hinstances := instanceInv_step h.instances hpid hstep
  have honce := unloadsOnce_step h.once hstep
  obtain ⟨⟨r', next⟩, hprog, rfl⟩ := step_eq_some hstep
  have hmove := dynDriver_move hprog
  have hminors := hmove.minors (h.instances.ready hpid)
  refine ⟨hinstances, honce, Nat.lt_of_lt_of_le h.made hminors.nextDev, ?_,
    h.call_step halone hpid hmove hminors.minorOff, h.stays_step hpid hprog⟩
  rw [State.put_shared, hminors.minorOff x h.made, h.minor]

theorem listedInv_start (hinstances : InstanceInv n s) (honce : UnloadsOnce s) (hp : p < n)
    (halone : ListsAlone s ⟨p, .go⟩) (hcreate : s.locals p = .create (.listAdd x))
    (hstep : step dynDriver s ⟨p, .go⟩ = some t) :
    ListedInv n p x (s.shared.devs x).minorOff [] t := by
  have hnow := instanceInv_step hinstances hp hstep
  have hlt := hinstances.books.lt_of_kept (hinstances.kept_of_listAdd hp hcreate).1
  have honce' := unloadsOnce_step honce hstep
  simp only [step, dynDriver, hcreate, createStep, Option.map_some, Option.some.injEq] at hstep
  subst hstep
  have hmem : x ∈ s.shared.list ++ [x] := List.mem_append_right _ List.mem_cons_self
  refine ⟨hnow, honce', hlt, rfl, fun _ => ?_, Or.inr ⟨hmem, fun q hq => ?_⟩⟩
  · rw [State.put_locals_self]
    refine ⟨rfl, fun _ y hy hoff => ?_⟩
    exact hnow.minor_inj (hnow.books.kept_of_listed hy) (hnow.books.kept_of_listed hmem) hoff
  · by_cases hne : q = p
    · rw [State.put_locals_self]
      exact ⟨hne, rfl, rfl⟩
    · rw [State.put_locals_of_ne s _ hne] at hq
      exact absurd hq (halone x hcreate q)

end Invariant

section Theorems

variable {ndevices p x : Nat} {before rest : List (Act DynChoice)} {s u : DynSystem}

theorem listedInv_run (hok : Along dynDriver ListsAlone (dynBoot ndevices)
      (before ++ ⟨p, .go⟩ :: rest))
    (hbefore : run dynDriver (dynBoot ndevices) before = some s)
    (hcreate : s.locals p = .create (.listAdd x))
    (hrun : run dynDriver (dynBoot ndevices) (before ++ ⟨p, .go⟩ :: rest) = some u) :
    ∃ n, ListedInv n p x (s.shared.devs x).minorOff rest u := by
  obtain ⟨n, hpids⟩ := exists_pid_bound (before ++ ⟨p, .go⟩ :: rest)
  have hp : p < n := hpids ⟨p, .go⟩ (List.mem_append_right _ List.mem_cons_self)
  obtain ⟨-, halone, hrest⟩ := hok.split hbefore
  obtain ⟨s', hs', hafter⟩ := run_append_eq_some hrun
  obtain rfl := Option.some.inj (hbefore.symm.trans hs')
  obtain ⟨t, hstep, hlater⟩ := run_cons hafter
  have hinstances : InstanceInv n s :=
    instanceInv_run (fun act hmem => hpids act (List.mem_append_left _ hmem)) hbefore
  have halways : Along dynDriver (fun _ _ => True) (dynBoot ndevices) before :=
    along_of_mem fun _ _ _ => trivial
  have honce : UnloadsOnce s :=
    run_invariant (fun _ _ _ h _ => unloadsOnce_step h) (fun _ _ => rfl) halways hbefore
  have hlate : ∀ act ∈ rest, act.pid < n := fun act hmem =>
    hpids act (List.mem_append_right _ (List.mem_cons_of_mem _ hmem))
  refine ⟨n, run_history (fun _ _ _ _ => listedInv_step)
    (listedInv_start hinstances honce hp halone hcreate hstep)
    ((hrest t hstep).and (along_of_mem fun _ act hmem => hlate act hmem)) hlater⟩

-- A CREATE of process `p` has listed the device `x`. While that call goes on, `x` is the
-- only device that it takes off the list or tears down; and unless its put_user fails, `x` stays
-- listed until somebody issues a DESTROY with its id or the module is unloaded.
theorem rollback_undoes_own_device
    (hok : Along dynDriver ListsAlone (dynBoot ndevices) (before ++ ⟨p, .go⟩ :: rest))
    (hbefore : run dynDriver (dynBoot ndevices) before = some s)
    (hcreate : s.locals p = .create (.listAdd x))
    (hrun : run dynDriver (dynBoot ndevices) (before ++ ⟨p, .go⟩ :: rest) = some u) :
    (SameCall p rest →
      (∀ y pc cont, u.locals p = .teardown y pc cont → y = x) ∧
      ∀ choice t, (∀ request, choice ≠ .start request) → step dynDriver u ⟨p, choice⟩ = some t →
        ∀ y ∈ u.shared.list, y ∉ t.shared.list → y = x) ∧
    ((∀ e, nextAnswer p rest ≠ some (.fail e)) →
      x ∈ u.shared.list ∨ u.shared.loaded = false ∨
        ∃ act ∈ rest, act.choice = .start (.destroy (s.shared.devs x).minorOff)) := by
  obtain ⟨n, hinv⟩ := listedInv_run hok hbefore hcreate hrun
  refine ⟨fun hcall => ?_, fun hanswer => ?_⟩
  · obtain ⟨hafter, hown⟩ := hinv.call hcall
    refine ⟨fun y pc cont hhere => ?_, fun choice t hchoice hstep => ?_⟩
    · rw [hhere] at hafter
      cases cont with
      | ret value => exact hafter
      | fdput | unload => exact hafter.elim
    · obtain ⟨r', next, hmove, rfl⟩ := dyn_step_move hstep
      exact (hmove.afterListing hafter hchoice hown).2
  · rcases hinv.stays with (hdestroy | hloaded | ⟨e, he⟩) | ⟨hlisted, -⟩
    · exact Or.inr (Or.inr hdestroy)
    · exact Or.inr (Or.inl hloaded)
    · exact absurd he (hanswer e)
    · exact Or.inl hlisted

end Theorems

section Traces

-- Between the listing and the put_user of the first CREATE, its device is destroyed
-- and the id goes to another CREATE.
def reusedId : List (Act DynChoice) :=
  [⟨1, .start (.destroy 0)⟩, ⟨1, .go⟩, ⟨1, .go⟩, ⟨1, .go⟩, ⟨1, .go⟩, ⟨1, .go⟩, ⟨1, .go⟩] ++
    createDyn 2 0 ++ [⟨0, .fail .EFAULT⟩]

-- The rollback of process 0 unregisters the device that process 2 was given.
theorem rollback_takes_other_device :
    ∃ s u t, run dynDriver (dynBoot 1) (beginDyn 0 0) = some s ∧
      s.locals 0 = .create (.listAdd 0) ∧
      run dynDriver (dynBoot 1) (beginDyn 0 0 ++ ⟨0, .go⟩ :: reusedId) = some u ∧
      u.locals 0 = .unlink 0 true ∧ u.locals 2 = .done (.id 0) ∧ u.shared.list = [1] ∧
      step dynDriver u ⟨0, .go⟩ = some t ∧
      t.locals 0 = .teardown 1 .deviceDestroy (.ret (.error .EFAULT)) ∧ t.shared.list = [] := by
  obtain ⟨s, hbegin, hcreate⟩ := Option.map_eq_some_iff.mp (show
    (run dynDriver (dynBoot 1) (beginDyn 0 0)).map (fun s => s.locals 0) =
      some (.create (.listAdd 0)) from rfl)
  obtain ⟨u, hrun, hend⟩ := Option.map_eq_some_iff.mp (show
    (run dynDriver (dynBoot 1) (beginDyn 0 0 ++ ⟨0, .go⟩ :: reusedId)).map (fun u =>
      (u.locals 0, u.locals 2, u.shared.list,
        (step dynDriver u ⟨0, .go⟩).map fun t => (t.locals 0, t.shared.list))) =
      some (.unlink 0 true, .done (.id 0), [1],
        some (.teardown 1 .deviceDestroy (.ret (.error .EFAULT)), [])) from rfl)
  obtain ⟨hfirst, hsecond, hlist, hlast⟩ := by simpa only [Prod.mk.injEq] using hend
  obtain ⟨t, hstep, hafter⟩ := Option.map_eq_some_iff.mp hlast
  obtain ⟨hteardown, hempty⟩ := by simpa only [Prod.mk.injEq] using hafter
  exact ⟨s, u, t, hbegin, hcreate, hrun, hfirst, hsecond, hlist, hstep, hteardown, hempty⟩

instance (off : Nat) (here : DynLocal) : Decidable (here.addresses off) :=
  inferInstanceAs (Decidable (_ = _))

def listsAloneUpTo (bound : Nat) (s : DynSystem) (act : Act DynChoice) : Bool :=
  match s.locals act.pid with
  | .create (.listAdd ptr) =>
      decide (∀ q < bound, ¬(s.locals q).addresses (s.shared.devs ptr).minorOff)
  | _ => true

theorem listsAlone_of_upTo {bound : Nat} {s : DynSystem} {act : Act DynChoice}
    (hrest : ∀ q, bound ≤ q → s.locals q = .idle) (hcheck : listsAloneUpTo bound s act = true) :
    ListsAlone s act := by
  intro ptr hhere q
  simp only [listsAloneUpTo, hhere, decide_eq_true_eq] at hcheck
  by_cases hq : q < bound
  · exact hcheck q hq
  · rw [hrest q (Nat.le_of_not_lt hq)]
    exact nofun

-- A second CREATE runs while the first waits for its put_user, which then fails.
theorem rollback_undoes_own_device_besideOther :
    ∃ u t, run dynDriver (dynBoot 1)
        (beginDyn 0 0 ++ ⟨0, .go⟩ :: (createDyn 1 1 ++ [⟨0, .fail .EFAULT⟩])) = some u ∧
      u.shared.list = [0, 1] ∧ step dynDriver u ⟨0, .go⟩ = some t ∧
      ∀ y ∈ u.shared.list, y ∉ t.shared.list → y = 0 := by
  have hcheck : checkAlong dynDriver (listsAloneUpTo 2) (dynBoot 1)
      (beginDyn 0 0 ++ ⟨0, .go⟩ :: (createDyn 1 1 ++ [⟨0, .fail .EFAULT⟩])) = true := rfl
  have hok : Along dynDriver ListsAlone (dynBoot 1)
      (beginDyn 0 0 ++ ⟨0, .go⟩ :: (createDyn 1 1 ++ [⟨0, .fail .EFAULT⟩])) :=
    along_of_checkAlong (fun _ _ => listsAlone_of_upTo) (fun _ _ => rfl) (by decide) hcheck
  obtain ⟨s, hbegin, hcreate⟩ := Option.map_eq_some_iff.mp (show
    (run dynDriver (dynBoot 1) (beginDyn 0 0)).map (fun s => s.locals 0) =
      some (.create (.listAdd 0)) from rfl)
  obtain ⟨u, hrun, hend⟩ := Option.map_eq_some_iff.mp (show
    (run dynDriver (dynBoot 1)
      (beginDyn 0 0 ++ ⟨0, .go⟩ :: (createDyn 1 1 ++ [⟨0, .fail .EFAULT⟩]))).map (fun u =>
        (u.shared.list, (step dynDriver u ⟨0, .go⟩).isSome)) = some ([0, 1], true) from rfl)
  obtain ⟨hlist, hsome⟩ := by simpa only [Prod.mk.injEq] using hend
  obtain ⟨t, hstep⟩ := Option.isSome_iff_exists.mp hsome
  have hcall : SameCall 0 (createDyn 1 1 ++ [⟨0, .fail .EFAULT⟩]) := by
    simp [SameCall, createDyn, beginDyn]
  obtain ⟨hown, -⟩ := rollback_undoes_own_device hok hbegin hcreate hrun
  exact ⟨u, t, hrun, hlist, hstep, (hown hcall).2 .go t nofun hstep⟩

end Traces

end Kbuf
