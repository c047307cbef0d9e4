import Kbuf.Lib.Interleaving
import Mathlib.Algebra.BigOperators.Group.Finset.Basic
import Mathlib.Algebra.BigOperators.Group.Finset.Piecewise
import Mathlib.Algebra.Group.Action.Defs
import Mathlib.Algebra.Order.BigOperators.Group.Finset

namespace Interleaving

variable {σ ℓ χ : Type*} {prog : Program σ ℓ χ}
  {credit : ℓ → Nat} {rank : Nat → σ → ℓ → Nat} {most n : Nat}

-- What the first `n` processes can still do. A credit pays for whatever a step does to the
-- ranks of the others; a rank is at most `most`.
def potential (credit : ℓ → Nat) (rank : Nat → σ → ℓ → Nat) (most n : Nat) (s : State σ ℓ) : Nat :=
  (∑ p ∈ Finset.range n, credit (s.locals p)) * (n * most + 1) +
    ∑ p ∈ Finset.range n, rank p s.shared (s.locals p)

-- A step spends credit, or it lowers the rank of its process and raises no other.
inductive Descends (credit : ℓ → Nat) (rank : Nat → σ → ℓ → Nat) (me : Nat) (shared : σ) (here : ℓ)
    (shared' : σ) (next : ℓ) : Prop
  | spends (h : credit next < credit here)
  | lowers (hcredit : credit next ≤ credit here)
      (hrank : rank me shared' next < rank me shared here)
      (hothers : ∀ p, p ≠ me → ∀ there, rank p shared' there ≤ rank p shared there)

-- A step from which its process starts over: its own rank may rise, and nothing else does.
structure Restarts (credit : ℓ → Nat) (rank : Nat → σ → ℓ → Nat) (me : Nat) (shared : σ) (here : ℓ)
    (shared' : σ) (next : ℓ) : Prop where
  credit_le : credit next ≤ credit here
  others : ∀ p, p ≠ me → ∀ there, rank p shared' there ≤ rank p shared there

section Step

variable {s : State σ ℓ} {me : Nat} {next : σ × ℓ}

theorem sum_put_lt {f g : Nat → ℓ → Nat} (hme : me < n) (hself : f me next.2 < g me (s.locals me))
    (hothers : ∀ p, p ≠ me → f p (s.locals p) ≤ g p (s.locals p)) :
    ∑ p ∈ Finset.range n, f p ((s.put me next).locals p) <
      ∑ p ∈ Finset.range n, g p (s.locals p) := by
  refine Finset.sum_lt_sum (fun p _ => ?_) ⟨me, Finset.mem_range.mpr hme, ?_⟩
  · by_cases hp : p = me
    · subst hp
      rw [State.put_locals_self]
      omega
    · rw [State.put_locals_of_ne _ _ hp]
      exact hothers p hp
  · rw [State.put_locals_self]
    exact hself

theorem sum_put_le {f g : Nat → ℓ → Nat} (hself : f me next.2 ≤ g me (s.locals me))
    (hothers : ∀ p, p ≠ me → f p (s.locals p) ≤ g p (s.locals p)) :
    ∑ p ∈ Finset.range n, f p ((s.put me next).locals p) ≤
      ∑ p ∈ Finset.range n, g p (s.locals p) := by
  refine Finset.sum_le_sum fun p _ => ?_
  by_cases hp : p = me
  · subst hp
    rw [State.put_locals_self]
    exact hself
  · rw [State.put_locals_of_ne _ _ hp]
    exact hothers p hp

theorem potential_put (hmost : ∀ p shared here, rank p shared here ≤ most) (hme : me < n)
    (h : Descends credit rank me s.shared (s.locals me) next.1 next.2) :
    potential credit rank most n (s.put me next) < potential credit rank most n s := by
  unfold potential
  cases h with
  | spends hspend =>
      have hcredit : ∑ p ∈ Finset.range n, credit ((s.put me next).locals p) + 1 ≤
          ∑ p ∈ Finset.range n, credit (s.locals p) :=
        sum_put_lt (f := fun _ => credit) (g := fun _ => credit) hme hspend fun _ _ => Nat.le_refl _
      have hrank : ∑ p ∈ Finset.range n, rank p (s.put me next).shared ((s.put me next).locals p) ≤
          n * most := by
        refine (Finset.sum_le_card_nsmul _ _ most fun p _ => hmost _ _ _).trans ?_
        rw [Finset.card_range, smul_eq_mul]
      have hmul := Nat.mul_le_mul_right (n * most + 1) hcredit
      rw [Nat.add_mul, Nat.one_mul] at hmul
      omega
  | lowers hcredit hrank hothers =>
      have hsum : ∑ p ∈ Finset.range n, credit ((s.put me next).locals p) ≤
          ∑ p ∈ Finset.range n, credit (s.locals p) :=
        sum_put_le (f := fun _ => credit) (g := fun _ => credit) hcredit fun _ _ => Nat.le_refl _
      have hlt : ∑ p ∈ Finset.range n, rank p next.1 ((s.put me next).locals p) <
          ∑ p ∈ Finset.range n, rank p s.shared (s.locals p) :=
        sum_put_lt (f := fun p => rank p next.1) (g := fun p => rank p s.shared) hme hrank
          fun p hp => hothers p hp _
      have hmul := Nat.mul_le_mul_right (n * most + 1) hsum
      rw [State.put_shared]
      omega

theorem potential_put_of_restarts (hmost : ∀ p shared here, rank p shared here ≤ most)
    (h : Restarts credit rank me s.shared (s.locals me) next.1 next.2) :
    potential credit rank most n (s.put me next) ≤ potential credit rank most n s + most := by
  unfold potential
  have hcredit : ∑ p ∈ Finset.range n, credit ((s.put me next).locals p) ≤
      ∑ p ∈ Finset.range n, credit (s.locals p) :=
    sum_put_le (f := fun _ => credit) (g := fun _ => credit) h.credit_le fun _ _ => Nat.le_refl _
  have hrank : ∑ p ∈ Finset.range n, rank p next.1 ((s.put me next).locals p) ≤
      ∑ p ∈ Finset.range n, (rank p s.shared (s.locals p) + if p = me then most else 0) := by
    refine sum_put_le (f := fun p => rank p next.1)
      (g := fun p here => rank p s.shared here + if p = me then most else 0) ?_ fun p hp => ?_
    · rw [if_pos rfl]
      exact (hmost ..).trans (Nat.le_add_left ..)
    · exact (h.others p hp _).trans (Nat.le_add_right ..)
  have hown : (∑ p ∈ Finset.range n, if p = me then most else 0) ≤ most := by
    rw [Finset.sum_ite_eq']
    split <;> omega
  have hmul := Nat.mul_le_mul_right (n * most + 1) hcredit
  rw [Finset.sum_add_distrib] at hrank
  rw [State.put_shared]
  omega

end Step

section Runs

variable {Inv : State σ ℓ → Prop} {allowed : Act χ → Prop} {again : Act χ → Bool}
  (hmost : ∀ p shared here, rank p shared here ≤ most)
  (hinv : ∀ s act t, Inv s → allowed act → step prog s act = some t → Inv t)

include hmost hinv

-- A run is at most as long as the potential it starts with, and each step from which a
-- process starts over lets it go on for at most one rank more.
theorem run_length_le
    (hstep : ∀ s act next, Inv s → allowed act →
      prog act.pid act.choice (s.locals act.pid) s.shared = some next →
        act.pid < n ∧ (Descends credit rank act.pid s.shared (s.locals act.pid) next.1 next.2 ∨
          again act = true ∧
            Restarts credit rank act.pid s.shared (s.locals act.pid) next.1 next.2))
    {s t : State σ ℓ} {acts : List (Act χ)} (hs : Inv s) (hacts : ∀ act ∈ acts, allowed act)
    (hrun : run prog s acts = some t) :
    potential credit rank most n t + acts.length ≤
      potential credit rank most n s + (most + 1) * acts.countP again := by
  induction acts generalizing s with
  | nil =>
      obtain rfl := Option.some.inj hrun
      exact Nat.le_refl _
  | cons act acts ih =>
      obtain ⟨u, hu, hrest⟩ := run_cons hrun
      have hact := hacts act List.mem_cons_self
      have hle := ih (hinv s act u hs hact hu)
        (fun other hother => hacts other (List.mem_cons_of_mem act hother)) hrest
      obtain ⟨next, hprog, rfl⟩ := step_eq_some hu
      obtain ⟨hme, hdescends | ⟨hagain, hrestarts⟩⟩ := hstep s act next hs hact hprog
      · have hlt := potential_put hmost hme hdescends
        have hcount : acts.countP again ≤ (act :: acts).countP again :=
          (List.sublist_cons_self act acts).countP_le
        have hmul := Nat.mul_le_mul_left (most + 1) hcount
        rw [List.length_cons]
        omega
      · have hrise := potential_put_of_restarts (n := n) hmost hrestarts
        rw [List.length_cons, List.countP_cons_of_pos hagain, Nat.mul_succ]
        omega

-- Where every step descends, a run can be continued to a state in which no step is left.
theorem exists_final_run
    (hstep : ∀ s act next, Inv s → allowed act →
      prog act.pid act.choice (s.locals act.pid) s.shared = some next →
        act.pid < n ∧ Descends credit rank act.pid s.shared (s.locals act.pid) next.1 next.2)
    {s : State σ ℓ} (hs : Inv s) :
    ∃ acts t, (∀ act ∈ acts, allowed act) ∧ run prog s acts = some t ∧
      ∀ act, allowed act → step prog t act = none := by
  induction hk : potential credit rank most n s using Nat.strong_induction_on
      generalizing s with
  | h k ih =>
      by_cases hend : ∀ act, allowed act → step prog s act = none
      · exact ⟨[], s, by simp, rfl, hend⟩
      · push Not at hend
        obtain ⟨act, hact, hne⟩ := hend
        obtain ⟨u, hu⟩ := Option.ne_none_iff_exists'.mp hne
        have hlt : potential credit rank most n u < potential credit rank most n s := by
          obtain ⟨next, hprog, rfl⟩ := step_eq_some hu
          obtain ⟨hme, hdescends⟩ := hstep s act next hs hact hprog
          exact potential_put hmost hme hdescends
        obtain ⟨acts, t, hacts, hrun, hfinal⟩ := ih _ (hk ▸ hlt) (hinv s act u hs hact hu) rfl
        refine ⟨act :: acts, t, ?_, ?_, hfinal⟩
        · intro other hother
          rcases List.mem_cons.mp hother with rfl | hmem
          · exact hact
          · exact hacts other hmem
        · rw [run, hu]
          exact hrun

end Runs

section WaitFree

variable {returned : ℓ → Prop} {go : χ} {p : Nat}

def ownSteps (p : Nat) (acts : List (Act χ)) : Nat := acts.countP fun act => act.pid = p

-- A call of process `p` that returns within `bound` steps of its own, whatever the others
-- do: it has returned somewhere in the run, or it has steps left and can take the next one.
def ReturnsWithin (prog : Program σ ℓ χ) (go : χ) (returned : ℓ → Prop) (p bound : Nat)
    (s : State σ ℓ) (acts : List (Act χ)) (t : State σ ℓ) : Prop :=
  (∃ first rest m, acts = first ++ rest ∧ run prog s first = some m ∧ returned (m.locals p) ∧
    ownSteps p first ≤ bound) ∨
  (ownSteps p acts < bound ∧ ∃ u, step prog t ⟨p, go⟩ = some u)

theorem ownSteps_cons_self {act : Act χ} (h : act.pid = p) (acts : List (Act χ)) :
    ownSteps p (act :: acts) = ownSteps p acts + 1 := by
  simp [ownSteps, h]

theorem ownSteps_cons_of_ne {act : Act χ} (h : act.pid ≠ p) (acts : List (Act χ)) :
    ownSteps p (act :: acts) = ownSteps p acts := by
  simp [ownSteps, h]

theorem ReturnsWithin.mono {bound more : Nat} {s t : State σ ℓ} {acts : List (Act χ)}
    (h : ReturnsWithin prog go returned p bound s acts t) (hle : bound ≤ more) :
    ReturnsWithin prog go returned p more s acts t := by
  rcases h with ⟨first, rest, m, hacts, hfirst, hret, hown⟩ | ⟨hown, hnext⟩
  · exact .inl ⟨first, rest, m, hacts, hfirst, hret, hown.trans hle⟩
  · exact .inr ⟨Nat.lt_of_lt_of_le hown hle, hnext⟩

-- One more step in front, which counts against the bound if it is one of `p`.
theorem ReturnsWithin.cons {bound more : Nat} {s m t : State σ ℓ} {act : Act χ}
    {acts : List (Act χ)} (hstep : step prog s act = some m)
    (h : ReturnsWithin prog go returned p bound m acts t)
    (hcost : bound + ownSteps p [act] ≤ more) :
    ReturnsWithin prog go returned p more s (act :: acts) t := by
  have hown (rest : List (Act χ)) :
      ownSteps p (act :: rest) = ownSteps p rest + ownSteps p [act] := by
    by_cases hp : act.pid = p
    · rw [ownSteps_cons_self hp, ownSteps_cons_self hp]
      rfl
    · rw [ownSteps_cons_of_ne hp, ownSteps_cons_of_ne hp]
      rfl
  rcases h with ⟨first, rest, v, rfl, hfirst, hret, hle⟩ | ⟨hlt, hnext⟩
  · refine .inl ⟨act :: first, rest, v, rfl, ?_, hret, ?_⟩
    · rw [run, hstep]
      exact hfirst
    · rw [hown]
      omega
  · refine .inr ⟨?_, hnext⟩
    rw [hown]
    omega

-- The rule for one call: `left` counts down while it is inside, until it has returned, and
-- its next step never depends on the others.
theorem returnsWithin_of_countdown (inside : ℓ → Prop) (left : ℓ → Nat)
    (hpos : ∀ here, inside here → 0 < left here)
    (hdown : ∀ me choice here shared next, inside here →
      prog me choice here shared = some next →
        returned next.2 ∨ inside next.2 ∧ left next.2 < left here)
    (hgo : ∀ me here shared, inside here → (prog me go here shared).isSome = true)
    {s t : State σ ℓ} {acts : List (Act χ)} (hinside : inside (s.locals p))
    (hrun : run prog s acts = some t) :
    ReturnsWithin prog go returned p (left (s.locals p)) s acts t := by
  induction acts generalizing s with
  | nil =>
      obtain rfl := Option.some.inj hrun
      obtain ⟨next, hnext⟩ := Option.isSome_iff_exists.mp (hgo p _ s.shared hinside)
      exact .inr ⟨hpos _ hinside, s.put p next, by rw [step, hnext]; rfl⟩
  | cons act acts ih =>
      obtain ⟨m, hm, hrest⟩ := run_cons hrun
      obtain ⟨next, hprog, rfl⟩ := step_eq_some hm
      by_cases hp : act.pid = p
      · subst hp
        have hlocal := State.put_locals_self s act.pid next
        rcases hdown _ _ _ _ _ hinside hprog with hret | ⟨hin, hlt⟩
        · refine .inl ⟨[act], acts, _, rfl, by rw [run, hm]; rfl, by rw [hlocal]; exact hret, ?_⟩
          rw [ownSteps_cons_self rfl]
          exact hpos _ hinside
        · refine .cons hm (ih (by rw [hlocal]; exact hin) hrest) ?_
          rw [hlocal, ownSteps_cons_self rfl]
          exact hlt
      · have hlocal := State.put_locals_of_ne s next (Ne.symm hp)
        refine .cons hm (ih (by rw [hlocal]; exact hinside) hrest) ?_
        rw [hlocal, ownSteps_cons_of_ne hp]
        exact Nat.le_refl _

end WaitFree

end Interleaving
