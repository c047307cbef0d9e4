import Mathlib.Data.Finset.Basic
import Mathlib.Data.Finset.Lattice.Lemmas
import Mathlib.Data.List.Nodup
import Mathlib.Data.List.Perm.Basic
import Mathlib.Tactic.Tauto

namespace Ledger

variable {ρ ε : Type*}

section Operations

inductive Op (ρ : Type*) where
  | acquire (r : ρ)
  | release (r : ρ)
  deriving DecidableEq

def acquired (ops : List (Op ρ)) : List ρ :=
  ops.filterMap fun
    | .acquire r => some r
    | .release _ => none

def releases (rs : List ρ) : List (Op ρ) := rs.map .release

@[simp] theorem acquired_append (first rest : List (Op ρ)) :
    acquired (first ++ rest) = acquired first ++ acquired rest :=
  List.filterMap_append ..

@[simp] theorem acquired_releases (rs : List ρ) : acquired (releases rs) = [] := by
  simp [acquired, releases, List.filterMap_map]

theorem count_acquire [DecidableEq ρ] (ops : List (Op ρ)) (r : ρ) :
    ops.count (.acquire r) = (acquired ops).count r := by
  induction ops with
  | nil => rfl
  | cons op ops ih =>
      cases op with
      | acquire q =>
          simp [acquired, List.count_cons] at ih ⊢
          omega
      | release q =>
          simp [acquired] at ih ⊢
          omega

end Operations

section Replay

variable [DecidableEq ρ]

-- What is live after an operation. Nothing is acquired while it is live, and nothing is
-- released that is not.
def Op.apply (live : Finset ρ) : Op ρ → Option (Finset ρ)
  | .acquire r => if r ∈ live then none else some (insert r live)
  | .release r => if r ∈ live then some (live.erase r) else none

def replay : Finset ρ → List (Op ρ) → Option (Finset ρ)
  | live, [] => some live
  | live, op :: ops => (op.apply live).bind fun next => replay next ops

variable {live live' : Finset ρ} {ops : List (Op ρ)} {r : ρ}

theorem replay_append (live : Finset ρ) (first rest : List (Op ρ)) :
    replay live (first ++ rest) = (replay live first).bind fun next => replay next rest := by
  induction first generalizing live with
  | nil => rfl
  | cons op first ih =>
      rw [List.cons_append, replay, replay, Option.bind_assoc]
      congr 1
      funext next
      exact ih next

theorem replay_append_of_some {first rest : List (Op ρ)} (h : replay live first = some live') :
    replay live (first ++ rest) = replay live' rest := by
  rw [replay_append, h, Option.bind_some]

theorem replay_acquire (h : r ∉ live) : replay live [.acquire r] = some (insert r live) := by
  simp [replay, Op.apply, h]

theorem replay_releases {rs : List ρ} (hnodup : rs.Nodup) (hlive : ∀ r ∈ rs, r ∈ live) :
    replay live (releases rs) = some (live \ rs.toFinset) := by
  induction rs generalizing live with
  | nil => simp [releases, replay]
  | cons r rs ih =>
      obtain ⟨hr, hrest⟩ := List.nodup_cons.mp hnodup
      have hmem : r ∈ live := hlive r (List.mem_cons_self ..)
      have hstill : ∀ q ∈ rs, q ∈ live.erase r := by
        intro q hq
        refine Finset.mem_erase.mpr ⟨?_, hlive q (List.mem_cons_of_mem r hq)⟩
        rintro rfl
        exact hr hq
      have hstep := ih hrest hstill
      simp only [releases, List.map_cons, replay, Op.apply, if_pos hmem,
        Option.bind_some] at hstep ⊢
      rw [hstep, List.toFinset_cons, Finset.sdiff_insert, Finset.erase_sdiff_comm]

-- Of all that came on top of `base`, one block goes again.
theorem replay_releases_block {base : Finset ρ} {all block rest undo : List ρ}
    (hnodup : all.Nodup) (hsplit : all.Perm (block ++ rest)) (hundo : undo.Perm block)
    (hapart : ∀ r ∈ block, r ∉ base) :
    replay (base ∪ all.toFinset) (releases undo) = some (base ∪ rest.toFinset) := by
  obtain ⟨hblock, -, hdisjoint⟩ := List.nodup_append'.mp (hsplit.nodup_iff.mp hnodup)
  have hlive : ∀ r ∈ undo, r ∈ base ∪ all.toFinset := by
    intro r hr
    refine Finset.mem_union_right _ (List.mem_toFinset.mpr (hsplit.mem_iff.mpr ?_))
    exact List.mem_append_left rest (hundo.mem_iff.mp hr)
  rw [replay_releases (hundo.nodup_iff.mpr hblock) hlive, List.toFinset_eq_of_perm _ _ hundo,
    List.toFinset_eq_of_perm _ _ hsplit]
  congr 1
  ext r
  have hbase := hapart r
  have hrest : r ∈ block → r ∉ rest := fun hr => hdisjoint hr
  simp only [Finset.mem_sdiff, Finset.mem_union, List.mem_toFinset, List.mem_append]
  tauto

theorem replay_releases_all {base : Finset ρ} {all undo : List ρ} (hnodup : all.Nodup)
    (hundo : undo.Perm all) (hapart : ∀ r ∈ all, r ∉ base) :
    replay (base ∪ all.toFinset) (releases undo) = some base := by
  have hsplit : all.Perm (all ++ []) := .of_eq (List.append_nil all).symm
  rw [replay_releases_block hnodup hsplit hundo hapart, List.toFinset_nil, Finset.union_empty]

-- An operation on `r` shows in whether `r` is live, any other one does not.
theorem Op.apply_balance {op : Op ρ} {next : Finset ρ} (h : op.apply live = some next) (r : ρ) :
    [op].count (.acquire r) + (if r ∈ live then 1 else 0) =
      [op].count (.release r) + (if r ∈ next then 1 else 0) := by
  cases op with
  | acquire q =>
      simp only [Op.apply] at h
      split at h
      · cases h
      · rename_i hq
        obtain rfl := Option.some.inj h
        by_cases hrq : r = q
        · subst hrq
          simp [hq]
        · simp [hrq, Ne.symm hrq]
  | release q =>
      simp only [Op.apply] at h
      split at h
      · rename_i hq
        obtain rfl := Option.some.inj h
        by_cases hrq : r = q
        · subst hrq
          simp [hq]
        · simp [hrq, Ne.symm hrq]
      · cases h

theorem count_balance (h : replay live ops = some live') (r : ρ) :
    ops.count (.acquire r) + (if r ∈ live then 1 else 0) =
      ops.count (.release r) + (if r ∈ live' then 1 else 0) := by
  induction ops generalizing live with
  | nil =>
      obtain rfl := Option.some.inj h
      rfl
  | cons op ops ih =>
      obtain ⟨next, hop, hrest⟩ := Option.bind_eq_some_iff.mp h
      have hfirst := op.apply_balance hop r
      have hcount := ih hrest
      rw [← List.singleton_append, List.count_append, List.count_append]
      omega

end Replay

section Routines

-- A routine that may fail, by what it did and what it returned.
structure Routine (ρ ε : Type*) where
  trace : List (Op ρ)
  result : Except ε Unit

def Routine.done : Routine ρ ε := ⟨[], .ok ()⟩

-- A step that may fail and acquires nothing.
def Routine.check (fails : Option ε) : Routine ρ ε :=
  match fails with
  | none => ⟨[], .ok ()⟩
  | some e => ⟨[], .error e⟩

-- An acquisition that fails with a given error, or not at all.
def Routine.acquire (fails : Option ε) (r : ρ) : Routine ρ ε :=
  match fails with
  | none => ⟨[.acquire r], .ok ()⟩
  | some e => ⟨[], .error e⟩

-- The caller goes on after a failure.
def Routine.ignore (a : Routine ρ ε) : Routine ρ ε := ⟨a.trace, .ok ()⟩

-- On failure go to a label that releases `undo`, in order, and return the error.
def Routine.orGoto (a : Routine ρ ε) (undo : List ρ) (rest : Routine ρ ε) : Routine ρ ε :=
  match a.result with
  | .error e => ⟨a.trace ++ releases undo, .error e⟩
  | .ok () => ⟨a.trace ++ rest.trace, rest.result⟩

-- A loop over `left` indices from `i` on, whose failures go to a label that depends on
-- the index.
def Routine.each (body : Nat → Routine ρ ε) (undo : Nat → List ρ) :
    (i left : Nat) → (rest : Routine ρ ε) → Routine ρ ε
  | _, 0, rest => rest
  | i, left + 1, rest => (body i).orGoto (undo i) (Routine.each body undo (i + 1) left rest)

theorem Routine.each_result {body : Nat → Routine ρ ε} (h : ∀ i, (body i).result = .ok ())
    (undo : Nat → List ρ) (i left : Nat) (rest : Routine ρ ε) :
    (Routine.each body undo i left rest).result = rest.result := by
  induction left generalizing i with
  | zero => rfl
  | succ left ih =>
      rw [Routine.each, Routine.orGoto, h i]
      exact ih (i + 1)

-- A call of a caller that holds `base` acquires all of `plan` or, when it fails, gives
-- back what it has acquired of it and `base` as well.
structure Routine.Builds [DecidableEq ρ] (a : Routine ρ ε) (base plan : List ρ) : Prop where
  within : (acquired a.trace).Sublist plan
  full : a.result = .ok () → acquired a.trace = plan
  replays : ∀ live : Finset ρ, (base ++ plan).Nodup → (∀ r ∈ base, r ∈ live) →
    (∀ r ∈ acquired a.trace, r ∉ live) →
    replay live a.trace = some (if a.result.isOk then live ∪ plan.toFinset
      else live \ base.toFinset)

variable [DecidableEq ρ] {a rest : Routine ρ ε} {base plan more undo : List ρ} {live : Finset ρ}

section Leaves

variable (h : a.Builds base plan) (hnodup : (base ++ plan).Nodup) (hlive : ∀ r ∈ base, r ∈ live)
  (hfresh : ∀ r ∈ acquired a.trace, r ∉ live)

include h hnodup hlive hfresh

theorem Routine.Builds.replay_of_ok (hresult : a.result = .ok ()) :
    replay live a.trace = some (live ∪ plan.toFinset) := by
  rw [h.replays live hnodup hlive hfresh, hresult]
  rfl

theorem Routine.Builds.replay_of_error {e : ε} (hresult : a.result = .error e) :
    replay live a.trace = some (live \ base.toFinset) := by
  rw [h.replays live hnodup hlive hfresh, hresult]
  rfl

end Leaves

section Rules

theorem builds_done (base : List ρ) : (Routine.done : Routine ρ ε).Builds base [] where
  within := List.Sublist.refl _
  full _ := rfl
  replays live _ _ _ := by simp [Routine.done, replay, Except.isOk, Except.toBool]

theorem builds_check (fails : Option ε) : (Routine.check fails : Routine ρ ε).Builds [] [] := by
  cases fails with
  | none => exact builds_done []
  | some e =>
      exact ⟨List.Sublist.refl _, nofun, fun live _ _ _ => by
        simp [Routine.check, replay, Except.isOk, Except.toBool]⟩

theorem builds_acquire (fails : Option ε) (r : ρ) : (Routine.acquire fails r).Builds [] [r] := by
  cases fails with
  | none =>
      refine ⟨List.Sublist.refl _, fun _ => rfl, fun live _ _ hfresh => ?_⟩
      have hr : r ∉ live := hfresh r (List.mem_singleton_self r)
      refine (replay_acquire hr).trans (congrArg some ?_)
      ext q
      simp [Routine.acquire, Except.isOk, Except.toBool]
  | some e =>
      exact ⟨List.nil_sublist _, nofun, fun live _ _ _ => by
        simp [Routine.acquire, replay, Except.isOk, Except.toBool]⟩

theorem builds_ignore (fails : Option ε) (r : ρ) :
    (Routine.acquire fails r).ignore.Builds [] (if fails.isNone then [r] else []) := by
  cases fails with
  | none =>
      have hacquire := builds_acquire (none : Option ε) r
      exact ⟨hacquire.within, hacquire.full, hacquire.replays⟩
  | some e => exact builds_done []

-- The step itself fails: the label undoes what came before it.
theorem Routine.Builds.goto_label {e : ε} (ha : a.Builds [] plan) (hresult : a.result = .error e)
    (hundo : undo.Perm base) :
    (⟨a.trace ++ releases undo, .error e⟩ : Routine ρ ε).Builds base (plan ++ more) where
  within := by
    rw [acquired_append, acquired_releases, List.append_nil]
    exact ha.within.trans (List.sublist_append_left plan more)
  full := nofun
  replays live hnodup hlive hfresh := by
    obtain ⟨hbase, hplans, -⟩ := List.nodup_append'.mp hnodup
    have hsame : replay live a.trace = some live := by
      rw [acquired_append, acquired_releases, List.append_nil] at hfresh
      rw [ha.replay_of_error (List.nodup_append'.mp hplans).1 nofun hfresh hresult,
        List.toFinset_nil, Finset.sdiff_empty]
    rw [replay_append_of_some hsame, replay_releases (hundo.nodup_iff.mpr hbase)
      fun r hr => hlive r (hundo.mem_iff.mp hr), List.toFinset_eq_of_perm _ _ hundo]
    rfl

-- The step succeeds, and the rest answers for what it acquired as well.
theorem Routine.Builds.goto_next (ha : a.Builds [] plan) (hresult : a.result = .ok ())
    (hrest : rest.Builds (base ++ plan) more) :
    (⟨a.trace ++ rest.trace, rest.result⟩ : Routine ρ ε).Builds base (plan ++ more) where
  within := by
    rw [acquired_append]
    exact ha.within.append hrest.within
  full hend := by rw [acquired_append, ha.full hresult, hrest.full hend]
  replays live hnodup hlive hfresh := by
    rw [acquired_append, ha.full hresult] at hfresh
    rw [← List.append_assoc] at hnodup
    obtain ⟨hfirst, -, hapart⟩ := List.nodup_append'.mp hnodup
    have hplan : ∀ r ∈ plan, r ∉ live := fun r hr => hfresh r (List.mem_append_left _ hr)
    have hgrown : replay live a.trace = some (live ∪ plan.toFinset) :=
      ha.replay_of_ok (List.nodup_append'.mp hfirst).2.1 nofun (by rwa [ha.full hresult]) hresult
    have hhas : ∀ r ∈ base ++ plan, r ∈ live ∪ plan.toFinset := by
      intro r hr
      rcases List.mem_append.mp hr with hr | hr
      · exact Finset.mem_union_left _ (hlive r hr)
      · exact Finset.mem_union_right _ (List.mem_toFinset.mpr hr)
    have hlacks : ∀ r ∈ acquired rest.trace, r ∉ live ∪ plan.toFinset := by
      intro r hr hmem
      rcases Finset.mem_union.mp hmem with hmem | hmem
      · exact hfresh r (List.mem_append_right plan hr) hmem
      · exact hapart (List.mem_append_right base (List.mem_toFinset.mp hmem))
          (hrest.within.subset hr)
    rw [replay_append_of_some hgrown, hrest.replays _ hnodup hhas hlacks]
    congr 1
    split
    · rw [List.toFinset_append, Finset.union_assoc]
    · ext q
      have := hplan q
      simp only [Finset.mem_sdiff, Finset.mem_union, List.mem_toFinset, List.mem_append]
      tauto

-- The rule for one `goto`: the label releases what the caller held before this step.
theorem Routine.Builds.orGoto (ha : a.Builds [] plan)
    (hundo : ∀ e, a.result = .error e → undo.Perm base) (hrest : rest.Builds (base ++ plan) more) :
    (a.orGoto undo rest).Builds base (plan ++ more) := by
  unfold Routine.orGoto
  split
  · exact ha.goto_label ‹_› (hundo _ ‹_›)
  · exact ha.goto_next ‹_› hrest

theorem flatMap_range_succ {α : Type*} (plan : Nat → List α) (i : Nat) :
    (List.range (i + 1)).flatMap plan = (List.range i).flatMap plan ++ plan i := by
  simp [List.range_succ]

-- The rule for a loop: at each index the label releases what all earlier rounds acquired.
theorem builds_each {body : Nat → Routine ρ ε} {undo plan : Nat → List ρ} (n : Nat)
    (hbody : ∀ i, (body i).Builds [] (plan i))
    (hundo : ∀ i e, (body i).result = .error e →
      (undo i).Perm (base ++ (List.range i).flatMap plan))
    (hrest : rest.Builds (base ++ (List.range n).flatMap plan) more) :
    (Routine.each body undo 0 n rest).Builds base ((List.range n).flatMap plan ++ more) := by
  suffices hloop : ∀ left i, i + left = n →
      (Routine.each body undo i left rest).Builds (base ++ (List.range i).flatMap plan)
        ((List.range' i left).flatMap plan ++ more) by
    have hall := hloop n 0 (Nat.zero_add n)
    rwa [← List.range_eq_range', List.range_zero, List.flatMap_nil, List.append_nil] at hall
  intro left
  induction left with
  | zero =>
      rintro i rfl
      exact hrest
  | succ left ih =>
      intro i hi
      rw [List.range'_succ, List.flatMap_cons, List.append_assoc]
      refine (hbody i).orGoto (hundo i) ?_
      rw [List.append_assoc, ← flatMap_range_succ]
      exact ih (i + 1) (by omega)

end Rules

section Restores

variable {ops : List (Op ρ)}

-- Everything acquired on the way has been released once, and nothing else has.
structure Restores (live : Finset ρ) (ops : List (Op ρ)) : Prop where
  live_eq : replay live ops = some live
  once : ∀ r, ops.count (.acquire r) ≤ 1 ∧ ops.count (.release r) = ops.count (.acquire r)

theorem restores_of_replay (h : replay live ops = some live) (hnodup : (acquired ops).Nodup) :
    Restores live ops where
  live_eq := h
  once r := by
    have hbalance := count_balance h r
    have hone := List.nodup_iff_count_le_one.mp hnodup r
    rw [← count_acquire] at hone
    omega

variable (h : a.Builds [] plan) (hnodup : plan.Nodup)
  (hfresh : ∀ r ∈ acquired a.trace, r ∉ live)

include h hnodup hfresh

-- A call that fails leaves no trace.
theorem Routine.Builds.restores {e : ε} (hresult : a.result = .error e) :
    Restores live a.trace := by
  refine restores_of_replay ?_ (hnodup.sublist h.within)
  rw [h.replay_of_error hnodup nofun hfresh hresult, List.toFinset_nil, Finset.sdiff_empty]

-- A call that succeeds is undone by releasing all that it acquired, in any order.
theorem Routine.Builds.restores_released (hresult : a.result = .ok ()) (hundo : undo.Perm plan) :
    Restores live (a.trace ++ releases undo) := by
  refine restores_of_replay ?_ ?_
  · rw [replay_append_of_some (h.replay_of_ok hnodup nofun hfresh hresult)]
    rw [h.full hresult] at hfresh
    exact replay_releases_all hnodup hundo hfresh
  · rw [acquired_append, acquired_releases, List.append_nil]
    exact hnodup.sublist h.within

end Restores

end Routines

end Ledger
