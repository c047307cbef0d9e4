import Mathlib.Data.List.Basic
import Mathlib.Data.Nat.ModEq

namespace Circular

variable {α : Type*}

-- The `len` cells that follow position `start` of a ring of `cap` cells.
def window (cell : Nat → α) (cap start len : Nat) : List α :=
  (List.range len).map fun i => cell ((start + i) % cap)

@[simp] theorem length_window (cell : Nat → α) (cap start len : Nat) :
    (window cell cap start len).length = len := by
  simp [window]

@[simp] theorem window_zero (cell : Nat → α) (cap start : Nat) :
    window cell cap start 0 = [] := rfl

theorem getElem?_window (cell : Nat → α) (cap start len i : Nat) (hi : i < len) :
    (window cell cap start len)[i]? = some (cell ((start + i) % cap)) := by
  simp [window, hi]

theorem window_add (cell : Nat → α) (cap start len more : Nat) :
    window cell cap start (len + more) =
      window cell cap start len ++ window cell cap (start + len) more := by
  simp only [window, List.range_add, List.map_append, List.map_map]
  congr 1
  apply List.map_congr_left
  intro i _
  simp only [Function.comp_apply, Nat.add_assoc]

-- Publishing one more cell appends it.
theorem window_succ (cell : Nat → α) (cap start len : Nat) :
    window cell cap start (len + 1) =
      window cell cap start len ++ [cell ((start + len) % cap)] := by
  rw [window_add]
  simp [window]

-- Releasing the first cell drops it.
theorem window_cons (cell : Nat → α) (cap start len : Nat) :
    window cell cap start (len + 1) =
      cell (start % cap) :: window cell cap (start + 1) len := by
  rw [Nat.add_comm len 1, window_add]
  simp [window]

theorem window_congr {cell other : Nat → α} (cap start len : Nat)
    (h : ∀ i < len, cell ((start + i) % cap) = other ((start + i) % cap)) :
    window cell cap start len = window other cap start len := by
  apply List.map_congr_left
  intro i hi
  exact h i (List.mem_range.mp hi)

-- Only the start modulo the capacity matters, so an index may wrap.
theorem window_start_congr (cell : Nat → α) {cap start other : Nat} (len : Nat)
    (h : start % cap = other % cap) :
    window cell cap start len = window cell cap other len := by
  apply List.map_congr_left
  intro i _
  have hi : (start + i) % cap = (other + i) % cap := Nat.ModEq.add_right i h
  rw [hi]

-- A window that shows the first elements of a list, one by one.
theorem window_eq_take (cell : Nat → α) (cap start len : Nat) (list : List α)
    (h : ∀ i, i < len → list[i]? = some (cell ((start + i) % cap))) :
    window cell cap start len = list.take len := by
  apply List.ext_getElem?
  intro i
  by_cases hi : i < len
  · rw [getElem?_window _ _ _ _ _ hi, List.getElem?_take_of_lt hi, h i hi]
  · have hlen : (window cell cap start len).length ≤ i := by
      rw [length_window]
      omega
    rw [List.getElem?_eq_none hlen, List.getElem?_take_eq_none (by omega)]

-- Two offsets less than one revolution apart name different cells.
theorem position_ne (cap start : Nat) {i j : Nat} (hij : i < j) (hj : j < i + cap) :
    (start + i) % cap ≠ (start + j) % cap := by
  intro h
  have hd : cap ∣ (start + j) - (start + i) := (Nat.modEq_iff_dvd' (by omega)).mp h
  have hle := Nat.le_of_dvd (by omega) hd
  omega

-- A change to one cell outside the window is not seen through it.
theorem window_eq_of_eq_off {cell other : Nat → α} (cap start len offset : Nat)
    (hlen : len ≤ offset) (hoff : offset < cap)
    (h : ∀ p, p ≠ (start + offset) % cap → cell p = other p) :
    window cell cap start len = window other cap start len := by
  apply window_congr
  intro i hi
  exact h _ (position_ne cap start (by omega) (by omega))

end Circular
