import Kbuf.Lib.Interleaving

namespace AtomicObject

open Interleaving

variable {σ ω ρ : Type*}

-- A sequential object. An operation without a result in some state has to wait there:
-- `stall` is what the attempt leaves behind. `abort` is what an interrupted call returns.
structure Object (σ ω ρ : Type*) where
  apply : σ → ω → Option (σ × ρ)
  stall : σ → ω → Option σ
  abort : ω → Option ρ

inductive Local (ω ρ : Type*) where
  | idle
  | called (op : ω)
  | applied (value : ρ)
  | returned (value : ρ)

inductive Choice (ω : Type*) where
  | call (op : ω)
  | apply
  | stall
  | abort
  | ret

-- Callers whose operations take effect in one step between their call and their return.
def atomic (obj : Object σ ω ρ) : Program σ (Local ω ρ) (Choice ω) := fun _ choice here state =>
  match here, choice with
  | .idle, .call op => some (state, .called op)
  | .returned _, .call op => some (state, .called op)
  | .called op, .apply => (obj.apply state op).map fun (state, value) => (state, .applied value)
  | .called op, .stall => (obj.stall state op).map fun state => (state, .called op)
  | .called op, .abort => (obj.abort op).map fun value => (state, .applied value)
  | .applied value, .ret => some (state, .returned value)
  | _, _ => none

def start (init : σ) : State σ (Local ω ρ) where
  shared := init
  locals := fun _ => .idle

-- What the callers see of each other: who calls what, and what it returns.
inductive Event (ω ρ : Type*) where
  | call (pid : Nat) (op : ω)
  | ret (pid : Nat) (value : ρ)

def note (act : Act (Choice ω)) (here : Local ω ρ) : Option (Event ω ρ) :=
  match act.choice, here with
  | .call op, _ => some (.call act.pid op)
  | .ret, .returned value => some (.ret act.pid value)
  | _, _ => none

-- The object could have been used one operation at a time with the same calls and
-- returns in the same order, and is then in state `final`.
def Linearizable (obj : Object σ ω ρ) (init : σ) (history : List (Event ω ρ)) (final : σ) : Prop :=
  ∃ acts s, run (atomic obj) (start init) acts = some s ∧
    trace (atomic obj) note (start init) acts = history ∧ s.shared = final

section Steps

variable {obj : Object σ ω ρ} {pid : Nat}

-- The steps of one caller that answer one step of an implementation.
inductive Answers (obj : Object σ ω ρ) (pid : Nat) (state : σ) :
    Local ω ρ → σ → Local ω ρ → Option (Event ω ρ) → Prop
  | stay {here : Local ω ρ} : Answers obj pid state here state here none
  | call {here : Local ω ρ} (op : ω) (h : here = .idle ∨ ∃ value, here = .returned value) :
      Answers obj pid state here state (.called op) (some (.call pid op))
  | apply {op : ω} {state' : σ} {value : ρ} (h : obj.apply state op = some (state', value)) :
      Answers obj pid state (.called op) state' (.applied value) none
  | stall {op : ω} {state' : σ} (h : obj.stall state op = some state') :
      Answers obj pid state (.called op) state' (.called op) none
  | ret {value : ρ} :
      Answers obj pid state (.applied value) state (.returned value) (some (.ret pid value))
  | applyRet {op : ω} {state' : σ} {value : ρ} (h : obj.apply state op = some (state', value)) :
      Answers obj pid state (.called op) state' (.returned value) (some (.ret pid value))
  | abortRet {op : ω} {value : ρ} (h : obj.abort op = some value) :
      Answers obj pid state (.called op) state (.returned value) (some (.ret pid value))

theorem run_one {s : State σ (Local ω ρ)} (choice : Choice ω) {next : σ × Local ω ρ}
    (h : atomic obj pid choice (s.locals pid) s.shared = some next) :
    run (atomic obj) s [⟨pid, choice⟩] = some (s.put pid next) ∧
      trace (atomic obj) note s [⟨pid, choice⟩] = (note ⟨pid, choice⟩ next.2).toList := by
  have hstep : step (atomic obj) s ⟨pid, choice⟩ = some (s.put pid next) := by
    rw [step, h]
    rfl
  constructor
  · rw [run, hstep]
    rfl
  · rw [trace_cons _ hstep, State.put_locals_self]
    exact List.append_nil _

theorem run_two {s : State σ (Local ω ρ)} (first second : Choice ω) {mid next : σ × Local ω ρ}
    (h : atomic obj pid first (s.locals pid) s.shared = some mid)
    (h' : atomic obj pid second mid.2 mid.1 = some next) :
    run (atomic obj) s [⟨pid, first⟩, ⟨pid, second⟩] = some (s.put pid next) ∧
      trace (atomic obj) note s [⟨pid, first⟩, ⟨pid, second⟩] =
        (note ⟨pid, first⟩ mid.2).toList ++ (note ⟨pid, second⟩ next.2).toList := by
  obtain ⟨hrun, hshown⟩ := run_one first h
  have hmid : atomic obj pid second ((s.put pid mid).locals pid) (s.put pid mid).shared =
      some next := by
    rw [State.put_locals_self]
    exact h'
  obtain ⟨hrun', hshown'⟩ := run_one second hmid
  have hput : (s.put pid mid).put pid next = s.put pid next := by
    simp only [State.put, Function.update_idem]
  rw [hput] at hrun'
  refine ⟨run_append_of_some hrun hrun', ?_⟩
  rw [← hshown, ← hshown']
  exact trace_append _ hrun

theorem Answers.run {s : State σ (Local ω ρ)} {state : σ} {next : Local ω ρ}
    {event : Option (Event ω ρ)}
    (h : Answers obj pid s.shared (s.locals pid) state next event) :
    ∃ acts, run (atomic obj) s acts = some (s.put pid (state, next)) ∧
      trace (atomic obj) note s acts = event.toList := by
  generalize hhere : s.locals pid = here at h
  cases h with
  | stay =>
      refine ⟨[], ?_, rfl⟩
      rw [← hhere]
      simp [Interleaving.run, State.put]
  | call op h =>
      refine ⟨_, run_one (.call op) ?_⟩
      rw [hhere]
      rcases h with rfl | ⟨value, rfl⟩
      · rfl
      · rfl
  | apply h =>
      refine ⟨_, run_one .apply ?_⟩
      rw [hhere]
      simp only [atomic, h, Option.map_some]
  | stall h =>
      refine ⟨_, run_one .stall ?_⟩
      rw [hhere]
      simp only [atomic, h, Option.map_some]
  | ret =>
      refine ⟨_, run_one .ret ?_⟩
      rw [hhere]
      rfl
  | @applyRet op _ value h =>
      have hfirst : atomic obj pid .apply (s.locals pid) s.shared =
          some (state, .applied value) := by
        rw [hhere]
        simp only [atomic, h, Option.map_some]
      exact ⟨_, run_two .apply .ret hfirst rfl⟩
  | @abortRet op value h =>
      have hfirst : atomic obj pid .abort (s.locals pid) s.shared =
          some (s.shared, .applied value) := by
        rw [hhere]
        simp only [atomic, h, Option.map_some]
      exact ⟨_, run_two .abort .ret hfirst rfl⟩

end Steps

section Simulation

variable {σ' ℓ χ : Type*} {prog : Program σ' ℓ χ} {ok : State σ' ℓ → Act χ → Prop}
  {obj : Object σ ω ρ} {shown : Act χ → ℓ → Option (Event ω ρ)}

-- An implementation each of whose steps is answered by its own caller is linearizable.
theorem linearizable_of_answers {Rel : State σ' ℓ → σ → (Nat → Local ω ρ) → Prop}
    (hmove : ∀ s act t state callers, Rel s state callers → ok s act →
      step prog s act = some t → ∃ state' next,
        Answers obj act.pid state (callers act.pid) state' next (shown act (t.locals act.pid)) ∧
          Rel t state' (Function.update callers act.pid next))
    {s t : State σ' ℓ} {init : σ} {acts : List (Act χ)} (hrel : Rel s init fun _ => .idle)
    (hok : Along prog ok s acts) (hrun : run prog s acts = some t) :
    ∃ final callers, Linearizable obj init (trace prog shown s acts) final ∧
      Rel t final callers := by
  have hanswer (s : State σ' ℓ) (u : State σ (Local ω ρ)) (act : Act χ) (t : State σ' ℓ)
      (hrel : Rel s u.shared u.locals) (hact : ok s act) (hstep : step prog s act = some t) :
      ∃ owns v, run (atomic obj) u owns = some v ∧
        trace (atomic obj) note u owns = (shown act (t.locals act.pid)).toList ∧
        Rel t v.shared v.locals := by
    obtain ⟨state, next, hanswers, hrel'⟩ := hmove s act t u.shared u.locals hrel hact hstep
    obtain ⟨owns, hown, hshown⟩ := hanswers.run
    exact ⟨owns, _, hown, hshown, hrel'⟩
  obtain ⟨owns, v, hv, htrace, hend⟩ := run_simulated hanswer (u := start init) hrel hok hrun
  exact ⟨v.shared, v.locals, ⟨owns, v, hv, htrace, rfl⟩, hend⟩

end Simulation

end AtomicObject
