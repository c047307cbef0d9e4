import Mathlib.Logic.Function.Basic

namespace Interleaving

variable {σ ℓ χ : Type*}

-- Any number of processes, each with a local state, over one shared state.
structure State (σ ℓ : Type*) where
  shared : σ
  locals : Nat → ℓ

-- Which process moves next, and how its environment answers it.
structure Act (χ : Type*) where
  pid : Nat
  choice : χ

-- The next step of one process. `none` is a step that is not enabled.
abbrev Program (σ ℓ χ : Type*) := Nat → χ → ℓ → σ → Option (σ × ℓ)

def State.put (s : State σ ℓ) (pid : Nat) (next : σ × ℓ) : State σ ℓ where
  shared := next.1
  locals := Function.update s.locals pid next.2

@[simp] theorem State.put_shared (s : State σ ℓ) (pid : Nat) (next : σ × ℓ) :
    (s.put pid next).shared = next.1 := rfl

@[simp] theorem State.put_locals_self (s : State σ ℓ) (pid : Nat) (next : σ × ℓ) :
    (s.put pid next).locals pid = next.2 := by
  simp [put]

theorem State.put_locals_of_ne (s : State σ ℓ) {pid other : Nat} (next : σ × ℓ)
    (h : other ≠ pid) : (s.put pid next).locals other = s.locals other := by
  simp [put, h]

theorem State.put_put (s : State σ ℓ) (pid : Nat) (next last : σ × ℓ) :
    (s.put pid next).put pid last = s.put pid last := by
  simp [put]

-- A fact about every process after a step: the one that moved has it in its new
-- local state, the others in the old one.
theorem State.forall_put {s : State σ ℓ} {pid : Nat} {next : σ × ℓ} {P : Nat → ℓ → Prop}
    (hself : P pid next.2) (hothers : ∀ q, q ≠ pid → P q (s.locals q)) (q : Nat) :
    P q ((s.put pid next).locals q) := by
  by_cases hq : q = pid
  · subst hq
    rw [put_locals_self]
    exact hself
  · rw [put_locals_of_ne s next hq]
    exact hothers q hq

def step (prog : Program σ ℓ χ) (s : State σ ℓ) (act : Act χ) : Option (State σ ℓ) :=
  (prog act.pid act.choice (s.locals act.pid) s.shared).map (s.put act.pid)

def run (prog : Program σ ℓ χ) : State σ ℓ → List (Act χ) → Option (State σ ℓ)
  | s, [] => some s
  | s, act :: acts => (step prog s act).bind fun t => run prog t acts

-- Every step of a run meets `ok` in the state it is taken from.
def Along (prog : Program σ ℓ χ) (ok : State σ ℓ → Act χ → Prop) :
    State σ ℓ → List (Act χ) → Prop
  | _, [] => True
  | s, act :: acts => ok s act ∧ ∀ t, step prog s act = some t → Along prog ok t acts

variable {prog : Program σ ℓ χ} {ok : State σ ℓ → Act χ → Prop}

theorem step_eq_some {s t : State σ ℓ} {act : Act χ} (h : step prog s act = some t) :
    ∃ next, prog act.pid act.choice (s.locals act.pid) s.shared = some next ∧
      t = s.put act.pid next := by
  obtain ⟨next, hp, rfl⟩ := Option.map_eq_some_iff.mp h
  exact ⟨next, hp, rfl⟩

theorem run_cons {s u : State σ ℓ} {act : Act χ} {acts : List (Act χ)}
    (h : run prog s (act :: acts) = some u) :
    ∃ t, step prog s act = some t ∧ run prog t acts = some u :=
  Option.bind_eq_some_iff.mp h

-- An invariant that holds at the start and that every allowed step keeps
-- holds in every state an allowed run reaches.
theorem run_invariant {Inv : State σ ℓ → Prop}
    (hstep : ∀ s act t, Inv s → ok s act → step prog s act = some t → Inv t)
    {s u : State σ ℓ} {acts : List (Act χ)} (hinit : Inv s) (hok : Along prog ok s acts)
    (hrun : run prog s acts = some u) : Inv u := by
  induction acts generalizing s with
  | nil =>
      obtain rfl := Option.some.inj hrun
      exact hinit
  | cons act acts ih =>
      obtain ⟨t, ht, hu⟩ := run_cons hrun
      exact ih (hstep s act t hinit hok.1 ht) (hok.2 t ht) hu

theorem run_append (s : State σ ℓ) (first rest : List (Act χ)) :
    run prog s (first ++ rest) = (run prog s first).bind fun t => run prog t rest := by
  induction first generalizing s with
  | nil => rfl
  | cons act acts ih =>
      simp only [List.cons_append, run]
      cases hs : step prog s act with
      | none => rfl
      | some t => exact ih t

theorem run_append_eq_some {s u : State σ ℓ} {first rest : List (Act χ)}
    (h : run prog s (first ++ rest) = some u) :
    ∃ t, run prog s first = some t ∧ run prog t rest = some u := by
  rw [run_append] at h
  exact Option.bind_eq_some_iff.mp h

theorem run_append_of_some {s t u : State σ ℓ} {first rest : List (Act χ)}
    (h : run prog s first = some t) (hrest : run prog t rest = some u) :
    run prog s (first ++ rest) = some u := by
  rw [run_append]
  exact Option.bind_eq_some_iff.mpr ⟨t, h, hrest⟩

-- A run has only so many processes that take part.
theorem exists_pid_bound (acts : List (Act χ)) : ∃ n, ∀ act ∈ acts, act.pid < n := by
  induction acts with
  | nil => exact ⟨0, nofun⟩
  | cons act acts ih =>
      obtain ⟨n, hn⟩ := ih
      refine ⟨max n (act.pid + 1), fun other hother => ?_⟩
      rcases List.mem_cons.mp hother with rfl | hmem
      · omega
      · have := hn other hmem
        omega

-- A process that takes no step stays where it is.
theorem run_locals_of_ne {s u : State σ ℓ} {acts : List (Act χ)} {q : Nat}
    (hrun : run prog s acts = some u) (hq : ∀ act ∈ acts, act.pid ≠ q) :
    u.locals q = s.locals q := by
  induction acts generalizing s with
  | nil =>
      obtain rfl := Option.some.inj hrun
      rfl
  | cons act acts ih =>
      obtain ⟨t, ht, hu⟩ := run_cons hrun
      obtain ⟨next, -, rfl⟩ := step_eq_some ht
      rw [ih hu fun other hother => hq other (List.mem_cons_of_mem act hother)]
      exact State.put_locals_of_ne s next (hq act List.mem_cons_self).symm

-- A process that has got somewhere along a run has got there in one of its own steps.
theorem exists_step_into {P : ℓ → Prop} {s u : State σ ℓ} {acts : List (Act χ)} {q : Nat}
    (hrun : run prog s acts = some u) (hs : ¬P (s.locals q)) (hu : P (u.locals q)) :
    ∃ first act rest t v, acts = first ++ act :: rest ∧ act.pid = q ∧
      run prog s first = some t ∧ step prog t act = some v ∧ ¬P (t.locals q) ∧
        P (v.locals q) := by
  induction acts generalizing s with
  | nil =>
      obtain rfl := Option.some.inj hrun
      exact absurd hu hs
  | cons act acts ih =>
      obtain ⟨t, ht, hrest⟩ := run_cons hrun
      by_cases hnow : P (t.locals q)
      · refine ⟨[], act, acts, s, t, rfl, ?_, rfl, ht, hs, hnow⟩
        obtain ⟨next, -, rfl⟩ := step_eq_some ht
        by_contra hne
        rw [State.put_locals_of_ne s next (Ne.symm hne)] at hnow
        exact hs hnow
      · obtain ⟨first, other, rest, v, w, rfl, hpid, hfirst, hstep, hv, hw⟩ := ih hrest hnow
        refine ⟨act :: first, other, rest, v, w, rfl, hpid, ?_, hstep, hv, hw⟩
        rw [run, ht]
        exact hfirst

theorem Along.split {s t : State σ ℓ} {first rest : List (Act χ)}
    (h : Along prog ok s (first ++ rest)) (hrun : run prog s first = some t) :
    Along prog ok s first ∧ Along prog ok t rest := by
  induction first generalizing s with
  | nil =>
      obtain rfl := Option.some.inj hrun
      exact ⟨trivial, h⟩
  | cons act acts ih =>
      obtain ⟨u, hu, ht⟩ := run_cons hrun
      obtain ⟨_, hrest⟩ := ih (h.2 u hu) ht
      refine ⟨⟨h.1, fun v hv => ?_⟩, hrest⟩
      obtain rfl := Option.some.inj (hu.symm.trans hv)
      exact (ih (h.2 u hu) ht).1

theorem Along.append {s : State σ ℓ} {first rest : List (Act χ)} (h : Along prog ok s first)
    (hrest : ∀ t, run prog s first = some t → Along prog ok t rest) :
    Along prog ok s (first ++ rest) := by
  induction first generalizing s with
  | nil => exact hrest s rfl
  | cons act acts ih =>
      refine ⟨h.1, fun t ht => ih (h.2 t ht) fun u hu => hrest u ?_⟩
      rw [run, ht]
      exact hu

theorem Along.mono {other : State σ ℓ → Act χ → Prop} (himp : ∀ s act, ok s act → other s act)
    {s : State σ ℓ} {acts : List (Act χ)} (h : Along prog ok s acts) :
    Along prog other s acts := by
  induction acts generalizing s with
  | nil => trivial
  | cons act acts ih => exact ⟨himp s act h.1, fun t ht => ih (h.2 t ht)⟩

theorem along_of_mem {s : State σ ℓ} {acts : List (Act χ)}
    (h : ∀ s, ∀ act ∈ acts, ok s act) : Along prog ok s acts := by
  induction acts generalizing s with
  | nil => trivial
  | cons act acts ih =>
      refine ⟨h s act List.mem_cons_self, fun t _ => ih fun u other hother => ?_⟩
      exact h u other (List.mem_cons_of_mem act hother)

theorem Along.and {other : State σ ℓ → Act χ → Prop} {s : State σ ℓ} {acts : List (Act χ)}
    (h : Along prog ok s acts) (hother : Along prog other s acts) :
    Along prog (fun s act => ok s act ∧ other s act) s acts := by
  induction acts generalizing s with
  | nil => trivial
  | cons act acts ih =>
      exact ⟨⟨h.1, hother.1⟩, fun t ht => ih (h.2 t ht) (hother.2 t ht)⟩

-- An invariant that may also speak about the steps taken so far.
theorem run_history {Inv : List (Act χ) → State σ ℓ → Prop}
    (hstep : ∀ past s act t, Inv past s → ok s act → step prog s act = some t →
      Inv (past ++ [act]) t)
    {s u : State σ ℓ} {acts : List (Act χ)} (hinit : Inv [] s) (hok : Along prog ok s acts)
    (hrun : run prog s acts = some u) : Inv acts u := by
  suffices h : ∀ past, Inv past s → Inv (past ++ acts) u from h [] hinit
  clear hinit
  induction acts generalizing s with
  | nil =>
      intro past hpast
      obtain rfl := Option.some.inj hrun
      simpa using hpast
  | cons act acts ih =>
      intro past hpast
      obtain ⟨t, ht, hu⟩ := run_cons hrun
      have h := ih (hok.2 t ht) hu (past ++ [act]) (hstep past s act t hpast hok.1 ht)
      simpa using h

section Observed

variable {α : Type*}

-- What an observer notes down along a run, at the steps where it notes anything.
def observed (prog : Program σ ℓ χ) (note : ℓ → ℓ → Option α) :
    State σ ℓ → List (Act χ) → List α
  | _, [] => []
  | s, act :: acts =>
      match step prog s act with
      | none => []
      | some t =>
          (note (s.locals act.pid) (t.locals act.pid)).toList ++ observed prog note t acts

-- An invariant that also speaks about what has been noted so far.
theorem run_observed {note : ℓ → ℓ → Option α} {Inv : List α → State σ ℓ → Prop}
    (hstep : ∀ seen s act t, Inv seen s → ok s act → step prog s act = some t →
      Inv (seen ++ (note (s.locals act.pid) (t.locals act.pid)).toList) t)
    {s u : State σ ℓ} {acts : List (Act χ)} (hinit : Inv [] s) (hok : Along prog ok s acts)
    (hrun : run prog s acts = some u) : Inv (observed prog note s acts) u := by
  suffices h : ∀ seen, Inv seen s → Inv (seen ++ observed prog note s acts) u from h [] hinit
  clear hinit
  induction acts generalizing s with
  | nil =>
      intro seen hseen
      obtain rfl := Option.some.inj hrun
      simpa [observed] using hseen
  | cons act acts ih =>
      intro seen hseen
      obtain ⟨t, ht, hu⟩ := run_cons hrun
      have h := ih (hok.2 t ht) hu _ (hstep seen s act t hseen hok.1 ht)
      simp only [observed, ht]
      rwa [← List.append_assoc]

-- A history that each step extends by what is noted of it is made of the notes.
theorem history_eq_observed {note : ℓ → ℓ → Option (List α)} (history : σ → List α)
    (hgrow : ∀ s act t, step prog s act = some t → history t.shared =
      history s.shared ++ (note (s.locals act.pid) (t.locals act.pid)).toList.flatten)
    {s u : State σ ℓ} {acts : List (Act χ)} (hrun : run prog s acts = some u) :
    history u.shared = history s.shared ++ (observed prog note s acts).flatten := by
  induction acts generalizing s with
  | nil =>
      obtain rfl := Option.some.inj hrun
      simp [observed]
  | cons act acts ih =>
      obtain ⟨t, ht, hu⟩ := run_cons hrun
      simp only [observed, ht]
      rw [ih hu, hgrow s act t ht, List.append_assoc, List.flatten_append]

end Observed

section Traces

variable {α : Type*} {note : Act χ → ℓ → Option α}

-- What can be seen of a run from outside: each step may show something, which depends
-- on the step and on where it leaves its process.
def trace (prog : Program σ ℓ χ) (note : Act χ → ℓ → Option α) :
    State σ ℓ → List (Act χ) → List α
  | _, [] => []
  | s, act :: acts =>
      match step prog s act with
      | none => []
      | some t => (note act (t.locals act.pid)).toList ++ trace prog note t acts

theorem trace_cons {s t : State σ ℓ} {act : Act χ} (acts : List (Act χ))
    (h : step prog s act = some t) :
    trace prog note s (act :: acts) =
      (note act (t.locals act.pid)).toList ++ trace prog note t acts := by
  simp only [trace, h]

theorem trace_append {s t : State σ ℓ} {first : List (Act χ)} (rest : List (Act χ))
    (h : run prog s first = some t) :
    trace prog note s (first ++ rest) = trace prog note s first ++ trace prog note t rest := by
  induction first generalizing s with
  | nil =>
      obtain rfl := Option.some.inj h
      rfl
  | cons act acts ih =>
      obtain ⟨u, hu, ht⟩ := run_cons h
      rw [List.cons_append, trace_cons _ hu, trace_cons _ hu, ih ht, List.append_assoc]

end Traces

section Parts

variable {σ' ℓ' χ' : Type*} {part : Program σ' ℓ' χ'}

-- What an observer sees of the shared state and of each process.
def State.map (g : σ → σ') (h : ℓ → ℓ') (s : State σ ℓ) : State σ' ℓ' where
  shared := g s.shared
  locals := fun p => h (s.locals p)

theorem State.map_put (g : σ → σ') (h : ℓ → ℓ') (s : State σ ℓ) (pid : Nat) (next : σ × ℓ) :
    (s.put pid next).map g h = (s.map g h).put pid (g next.1, h next.2) := by
  have hlocals : (fun p => h (Function.update s.locals pid next.2 p)) =
      Function.update (fun p => h (s.locals p)) pid (h next.2) :=
    Function.comp_update h s.locals pid next.2
  simp only [State.map, State.put, hlocals]

-- The steps of a run that belong to one part of the system, as steps of that part.
def selected (prog : Program σ ℓ χ) (pick : State σ ℓ → Act χ → Option (Act χ')) :
    State σ ℓ → List (Act χ) → List (Act χ')
  | _, [] => []
  | s, act :: acts =>
      match step prog s act with
      | none => []
      | some t => (pick s act).toList ++ selected prog pick t acts

-- A part whose steps are the picked ones, and which the others leave alone, runs by itself.
theorem run_selected {Rel : State σ ℓ → State σ' ℓ' → Prop}
    {pick : State σ ℓ → Act χ → Option (Act χ')}
    (hstay : ∀ s u act t, Rel s u → step prog s act = some t → pick s act = none → Rel t u)
    (hmove : ∀ s u act t own, Rel s u → step prog s act = some t → pick s act = some own →
      ∃ v, step part u own = some v ∧ Rel t v)
    {s t : State σ ℓ} {u : State σ' ℓ'} {acts : List (Act χ)} (hrel : Rel s u)
    (hrun : run prog s acts = some t) :
    ∃ v, run part u (selected prog pick s acts) = some v ∧ Rel t v := by
  induction acts generalizing s u with
  | nil =>
      obtain rfl := Option.some.inj hrun
      exact ⟨u, rfl, hrel⟩
  | cons act acts ih =>
      obtain ⟨m, hm, hrest⟩ := run_cons hrun
      simp only [selected, hm]
      cases hpick : pick s act with
      | none => exact ih (hstay s u act m hrel hm hpick) hrest
      | some own =>
          obtain ⟨v, hv, hrel'⟩ := hmove s u act m own hrel hm hpick
          obtain ⟨w, hw, hend⟩ := ih hrel' hrest
          refine ⟨w, ?_, hend⟩
          simp only [Option.toList_some, List.singleton_append, run, hv, Option.bind_some]
          exact hw

-- A system that can answer every step with one of its own follows the whole run.
theorem run_followed {Rel : State σ ℓ → State σ' ℓ' → Prop}
    (hmove : ∀ s u act t, Rel s u → step prog s act = some t →
      ∃ own v, own.pid = act.pid ∧ step part u own = some v ∧ Rel t v)
    {s t : State σ ℓ} {u : State σ' ℓ'} {acts : List (Act χ)} (hrel : Rel s u)
    (hrun : run prog s acts = some t) :
    ∃ owns v, owns.map Act.pid = acts.map Act.pid ∧ run part u owns = some v ∧ Rel t v := by
  induction acts generalizing s u with
  | nil =>
      obtain rfl := Option.some.inj hrun
      exact ⟨[], u, rfl, rfl, hrel⟩
  | cons act acts ih =>
      obtain ⟨m, hm, hrest⟩ := run_cons hrun
      obtain ⟨own, v, hpid, hv, hrel'⟩ := hmove s u act m hrel hm
      obtain ⟨owns, w, hpids, hw, hend⟩ := ih hrel' hrest
      refine ⟨own :: owns, w, ?_, ?_, hend⟩
      · rw [List.map_cons, List.map_cons, hpid, hpids]
      · rw [run, hv]
        exact hw

-- A system that can answer every step with steps that show the same shows the same
-- along the whole run.
theorem run_simulated {α : Type*} {note : Act χ → ℓ → Option α} {note' : Act χ' → ℓ' → Option α}
    {Rel : State σ ℓ → State σ' ℓ' → Prop}
    (hmove : ∀ s u act t, Rel s u → ok s act → step prog s act = some t →
      ∃ owns v, run part u owns = some v ∧
        trace part note' u owns = (note act (t.locals act.pid)).toList ∧ Rel t v)
    {s t : State σ ℓ} {u : State σ' ℓ'} {acts : List (Act χ)} (hrel : Rel s u)
    (hok : Along prog ok s acts) (hrun : run prog s acts = some t) :
    ∃ owns v, run part u owns = some v ∧
      trace part note' u owns = trace prog note s acts ∧ Rel t v := by
  induction acts generalizing s u with
  | nil =>
      obtain rfl := Option.some.inj hrun
      exact ⟨[], u, rfl, rfl, hrel⟩
  | cons act acts ih =>
      obtain ⟨m, hm, hrest⟩ := run_cons hrun
      obtain ⟨first, v, hfirst, hshown, hrel'⟩ := hmove s u act m hrel hok.1 hm
      obtain ⟨rest, w, hw, htrace, hend⟩ := ih hrel' (hok.2 m hm) hrest
      refine ⟨first ++ rest, w, run_append_of_some hfirst hw, ?_, hend⟩
      rw [trace_append _ hfirst, trace_cons _ hm, hshown, htrace]

end Parts

section Blind

variable {g : σ → σ}
  (hblind : ∀ pid choice here w, prog pid choice here (g w) =
    (prog pid choice here w).map (Prod.map g id))

include hblind

-- A change of the shared state that no process can see.
theorem step_blind {s t : State σ ℓ} {act : Act χ} (h : step prog s act = some t) :
    step prog (s.map g id) act = some (t.map g id) := by
  obtain ⟨⟨w, here⟩, hp, rfl⟩ := step_eq_some h
  have hsame := hblind act.pid act.choice (s.locals act.pid) s.shared
  rw [hp] at hsame
  simp only [step, State.map_put]
  exact congrArg (Option.map ((s.map g id).put act.pid)) hsame

end Blind

section Check

-- A test of every step of a given run.
def checkAlong (prog : Program σ ℓ χ) (check : State σ ℓ → Act χ → Bool) :
    State σ ℓ → List (Act χ) → Bool
  | _, [] => true
  | s, act :: acts =>
      check s act && ((step prog s act).map fun t => checkAlong prog check t acts).getD true

-- The test need only see what an invariant of the run leaves open.
theorem along_of_check {check : State σ ℓ → Act χ → Bool} {Inv : State σ ℓ → Prop}
    {allowed : Act χ → Prop}
    (hstep : ∀ s act t, Inv s → allowed act → step prog s act = some t → Inv t)
    (hok : ∀ s act, Inv s → check s act = true → ok s act) {s : State σ ℓ} {acts : List (Act χ)}
    (hinit : Inv s) (hacts : ∀ act ∈ acts, allowed act)
    (h : checkAlong prog check s acts = true) : Along prog ok s acts := by
  induction acts generalizing s with
  | nil => trivial
  | cons act acts ih =>
      simp only [checkAlong, Bool.and_eq_true] at h
      refine ⟨hok s act hinit h.1, fun t ht => ih ?_ ?_ ?_⟩
      · exact hstep s act t hinit (hacts act List.mem_cons_self) ht
      · exact fun other hother => hacts other (List.mem_cons_of_mem act hother)
      · simpa [ht] using h.2

-- It need only look at the processes that take part in the run.
theorem along_of_checkAlong {check : State σ ℓ → Act χ → Bool} {rest : ℓ} {bound : Nat}
    (hok : ∀ s act, (∀ q, bound ≤ q → s.locals q = rest) → check s act = true → ok s act)
    {s : State σ ℓ} {acts : List (Act χ)} (hrest : ∀ q, bound ≤ q → s.locals q = rest)
    (hpids : ∀ act ∈ acts, act.pid < bound) (h : checkAlong prog check s acts = true) :
    Along prog ok s acts := by
  refine along_of_check (fun s act t hs hlt ht q hq => ?_) hok hrest hpids h
  obtain ⟨next, -, rfl⟩ := step_eq_some ht
  rw [State.put_locals_of_ne s next (by omega)]
  exact hs q hq

end Check

end Interleaving
