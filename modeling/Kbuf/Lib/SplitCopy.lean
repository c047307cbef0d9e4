import Kbuf.Lib.Circular

namespace Circular

variable {α : Type*}

-- Store a list of values one after the other, going round a ring of cells.
def store (cells : List α) (start : Nat) : List α → List α
  | [] => cells
  | value :: values => store (cells.set (start % cells.length) value) (start + 1) values

-- Replace the cells from `start` on, all at once and without going round.
def splice (cells : List α) (start : Nat) (values : List α) : List α :=
  cells.take start ++ values ++ cells.drop (start + values.length)

-- The copy in two parts: up to the end of the cells, then from their start.
def splitStore (cells : List α) (start : Nat) (values : List α) : List α :=
  splice (splice cells start (values.take (cells.length - start))) 0
    (values.drop (cells.length - start))

def splitLoad (cells : List α) (start len : Nat) : List α :=
  (cells.drop start).take len ++ cells.take (len - (cells.length - start))

section Store

@[simp] theorem length_store (cells : List α) (start : Nat) (values : List α) :
    (store cells start values).length = cells.length := by
  induction values generalizing cells start with
  | nil => rfl
  | cons value values ih => rw [store, ih, List.length_set]

theorem store_append (cells : List α) (start : Nat) (first second : List α) :
    store cells start (first ++ second) =
      store (store cells start first) (start + first.length) second := by
  induction first generalizing cells start with
  | nil => rfl
  | cons value first ih =>
      rw [List.cons_append, store, store, ih, List.length_cons, Nat.add_assoc, Nat.add_comm 1]

theorem store_start_congr (cells : List α) {start other : Nat} (values : List α)
    (h : start % cells.length = other % cells.length) :
    store cells start values = store cells other values := by
  induction values generalizing cells start other with
  | nil => rfl
  | cons value values ih =>
      rw [store, store, h]
      apply ih
      rw [List.length_set]
      exact Nat.ModEq.add_right 1 h

-- A cell that the walk does not pass keeps its value.
theorem getElem?_store_of_ne (cells : List α) (start position : Nat) (values : List α)
    (h : ∀ i < values.length, (start + i) % cells.length ≠ position) :
    (store cells start values)[position]? = cells[position]? := by
  induction values generalizing cells start with
  | nil => rfl
  | cons value values ih =>
      have hfirst : start % cells.length ≠ position := h 0 (by simp)
      rw [store, ih, List.getElem?_set_ne hfirst]
      intro i hi
      rw [List.length_set, Nat.add_assoc, Nat.add_comm 1]
      exact h (i + 1) (by rw [List.length_cons]; omega)

end Store

section Split

-- While the end of the ring is not reached, one by one is the same as at once.
theorem store_eq_splice (cells : List α) (start : Nat) (values : List α)
    (h : start + values.length ≤ cells.length) :
    store cells start values = splice cells start values := by
  induction values generalizing cells start with
  | nil => simp [store, splice]
  | cons value values ih =>
      rw [List.length_cons] at h
      have hlt : start < cells.length := by omega
      rw [store, Nat.mod_eq_of_lt hlt, ih _ _ (by rw [List.length_set]; omega)]
      simp only [splice, List.length_cons]
      rw [List.take_add_one, List.getElem?_set_self hlt, List.take_set_of_le (Nat.le_refl start),
        List.drop_set_of_lt (by omega), Nat.add_assoc, Nat.add_comm 1]
      simp

theorem store_eq_splitStore (cells : List α) (start : Nat) (values : List α)
    (hstart : start < cells.length) (hlen : values.length ≤ cells.length) :
    store cells start values = splitStore cells start values := by
  -- Either everything fits before the end, or the second part starts at the end.
  have hfirst := store_eq_splice cells start (values.take (cells.length - start))
    (by rw [List.length_take]; omega)
  have hcells : (store cells start (values.take (cells.length - start))).length = cells.length :=
    length_store ..
  conv_lhs => rw [← List.take_append_drop (cells.length - start) values, store_append]
  rw [splitStore, ← hfirst]
  by_cases hfit : values.length ≤ cells.length - start
  · rw [List.drop_eq_nil_of_le hfit]
    simp [store, splice]
  · have hend : start + (values.take (cells.length - start)).length = cells.length := by
      rw [List.length_take]
      omega
    have hturn : cells.length % (store cells start (values.take (cells.length - start))).length =
        0 % (store cells start (values.take (cells.length - start))).length := by
      rw [hcells, Nat.mod_self, Nat.zero_mod]
    rw [hend, store_start_congr _ _ hturn]
    apply store_eq_splice
    rw [hcells, List.length_drop]
    omega

theorem window_eq_splitLoad (cells : List α) (fallback : α) (start len : Nat)
    (hstart : start < cells.length) (hlen : len ≤ cells.length) :
    window (fun position => cells.getD position fallback) cells.length start len =
      splitLoad cells start len := by
  apply List.ext_getElem?
  intro i
  by_cases hi : i < len
  · rw [getElem?_window _ _ _ _ _ hi, splitLoad]
    by_cases hfit : start + i < cells.length
    · rw [List.getElem?_append_left (by rw [List.length_take, List.length_drop]; omega),
        List.getElem?_take_of_lt hi, List.getElem?_drop, Nat.mod_eq_of_lt hfit]
      simp [hfit]
    · have hwrap : (start + i) % cells.length = start + i - cells.length := by
        rw [Nat.mod_eq_sub_mod (by omega), Nat.mod_eq_of_lt (by omega)]
      have hpart : ((cells.drop start).take len).length = cells.length - start := by
        rw [List.length_take, List.length_drop]
        omega
      rw [List.getElem?_append_right (by omega), hpart, List.getElem?_take_of_lt (by omega),
        hwrap, show i - (cells.length - start) = start + i - cells.length by omega]
      simp [show start + i - cells.length < cells.length by omega]
  · rw [List.getElem?_eq_none (by rw [length_window]; omega), List.getElem?_eq_none]
    simp only [splitLoad, List.length_append, List.length_take, List.length_drop]
    omega

end Split

end Circular
