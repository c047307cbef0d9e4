import Mathlib.Algebra.BigOperators.Group.Finset.Piecewise
import Mathlib.Algebra.Order.BigOperators.Group.Finset

namespace Tally

variable {α : Type*}

-- The weights of the first `n` entries of a table, added up.
def tally (weight : α → Nat) (table : Nat → α) (n : Nat) : Nat :=
  ∑ i ∈ Finset.range n, weight (table i)

variable (weight : α → Nat) (table : Nat → α) {n i : Nat}

-- Changing one entry trades its old weight for the new one.
theorem tally_update (hi : i < n) (entry : α) :
    tally weight (Function.update table i entry) n + weight (table i) =
      tally weight table n + weight entry := by
  have hmem : i ∈ Finset.range n := Finset.mem_range.mpr hi
  have hnew : tally weight (Function.update table i entry) n =
      weight entry + ∑ j ∈ Finset.range n \ {i}, weight (table j) := by
    rw [tally, ← Finset.sum_update_of_mem hmem (fun j => weight (table j)) (weight entry)]
    exact Finset.sum_congr rfl fun j _ => Function.apply_update (fun _ => weight) table i entry j
  rw [hnew, tally, Finset.sum_eq_add_sum_sdiff_singleton_of_mem hmem]
  omega

-- A new entry adds its weight.
theorem tally_push (n : Nat) (entry : α) :
    tally weight (Function.update table n entry) (n + 1) = tally weight table n + weight entry := by
  have hbefore : tally weight (Function.update table n entry) n = tally weight table n := by
    refine Finset.sum_congr rfl fun j hj => ?_
    have hlt := Finset.mem_range.mp hj
    rw [Function.update_of_ne (by omega)]
  rw [← hbefore, tally, Finset.sum_range_succ, Function.update_self, tally]

theorem le_tally (hi : i < n) : weight (table i) ≤ tally weight table n :=
  Finset.single_le_sum (f := fun j => weight (table j)) (fun _ _ => Nat.zero_le _)
    (Finset.mem_range.mpr hi)

theorem add_le_tally {j : Nat} (hi : i < n) (hj : j < n) (hne : i ≠ j) :
    weight (table i) + weight (table j) ≤ tally weight table n := by
  have hpair : ({i, j} : Finset Nat) ⊆ Finset.range n := by
    intro k hk
    rcases Finset.mem_insert.mp hk with rfl | hk
    · exact Finset.mem_range.mpr hi
    · rw [Finset.mem_singleton.mp hk]
      exact Finset.mem_range.mpr hj
  have hle := Finset.sum_le_sum_of_subset (f := fun k => weight (table k)) hpair
  rwa [Finset.sum_pair hne] at hle

-- When one entry has all there is of a weight, it has all of every smaller one.
theorem tally_eq_entry {small : α → Nat} (hle : ∀ entry, small entry ≤ weight entry) (hi : i < n)
    (hall : tally weight table n ≤ weight (table i)) : tally small table n = small (table i) := by
  refine Finset.sum_eq_single_of_mem i (Finset.mem_range.mpr hi) fun j hj hne => ?_
  have hsum := add_le_tally weight table hi (Finset.mem_range.mp hj) (Ne.symm hne)
  have hsmall := hle (table j)
  omega

theorem tally_eq_zero (h : ∀ i, i < n → weight (table i) = 0) : tally weight table n = 0 :=
  Finset.sum_eq_zero fun i hi => h i (Finset.mem_range.mp hi)

theorem tally_add (other : α → Nat) (n : Nat) :
    tally (fun entry => weight entry + other entry) table n =
      tally weight table n + tally other table n :=
  Finset.sum_add_distrib

end Tally
