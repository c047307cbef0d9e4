import Mathlib.Data.List.GetD
import Mathlib.Data.List.OfFn

namespace UserSpace

-- The memory of a process: its bytes, and which of them may be read and written.
structure Space where
  byte : Nat → UInt8
  readable : Nat → Bool
  writable : Nat → Bool

-- All of the `n` bytes from `addr` on are allowed.
def Allowed (allowed : Nat → Bool) (addr n : Nat) : Prop := ∀ i, i < n → allowed (addr + i) = true

instance (allowed : Nat → Bool) (addr n : Nat) : Decidable (Allowed allowed addr n) :=
  inferInstanceAs (Decidable (∀ i, i < n → allowed (addr + i) = true))

-- How many of the `n` bytes from `addr` on come before the first that is not allowed.
def reach (allowed : Nat → Bool) : (addr n : Nat) → Nat
  | _, 0 => 0
  | addr, n + 1 => if allowed addr then reach allowed (addr + 1) n + 1 else 0

def Space.peek (mem : Space) (addr n : Nat) : List UInt8 :=
  List.ofFn fun i : Fin n => mem.byte (addr + i)

def Space.poke (mem : Space) (addr : Nat) (bytes : List UInt8) : Space :=
  { mem with
    byte := fun a => if addr ≤ a then bytes.getD (a - addr) (mem.byte a) else mem.byte a }

-- A copy from or to the memory stops at the first byte that faults. The second component is
-- the number of bytes that were not copied.
def Space.copyIn (mem : Space) (addr n : Nat) : List UInt8 × Nat :=
  let done := reach mem.readable addr n
  (mem.peek addr done, n - done)

def Space.copyOut (mem : Space) (addr : Nat) (bytes : List UInt8) : Space × Nat :=
  let done := reach mem.writable addr bytes.length
  (mem.poke addr (bytes.take done), bytes.length - done)

section Reach

variable {allowed : Nat → Bool} {addr n : Nat}

theorem reach_le (allowed : Nat → Bool) (addr n : Nat) : reach allowed addr n ≤ n := by
  induction n generalizing addr with
  | zero => exact Nat.le_refl 0
  | succ n ih =>
      rw [reach]
      split
      · exact Nat.succ_le_succ (ih (addr + 1))
      · exact Nat.zero_le _

-- The copy goes to the end just if nothing on the way faults.
theorem reach_eq_iff : reach allowed addr n = n ↔ Allowed allowed addr n := by
  induction n generalizing addr with
  | zero => exact ⟨fun _ i hi => absurd hi (Nat.not_lt_zero i), fun _ => rfl⟩
  | succ n ih =>
      rw [reach]
      by_cases haddr : allowed addr = true
      · rw [if_pos haddr, Nat.add_right_cancel_iff, ih]
        constructor
        · intro h i hi
          cases i with
          | zero => exact haddr
          | succ i =>
              have := h i (by omega)
              rwa [Nat.add_right_comm] at this
        · intro h i hi
          have := h (i + 1) (by omega)
          rwa [Nat.add_right_comm, Nat.add_assoc]
      · rw [if_neg haddr]
        constructor
        · intro h
          omega
        · intro h
          exact absurd (h 0 (Nat.succ_pos n)) haddr

end Reach

section Copies

variable {mem : Space} {addr n : Nat} {bytes : List UInt8}

@[simp] theorem length_peek (mem : Space) (addr n : Nat) : (mem.peek addr n).length = n :=
  List.length_ofFn

theorem getElem?_peek {i : Nat} (hi : i < n) :
    (mem.peek addr n)[i]? = some (mem.byte (addr + i)) := by
  rw [Space.peek, List.getElem?_ofFn, dif_pos hi]

@[simp] theorem poke_readable (mem : Space) (addr : Nat) (bytes : List UInt8) :
    (mem.poke addr bytes).readable = mem.readable := rfl

@[simp] theorem poke_writable (mem : Space) (addr : Nat) (bytes : List UInt8) :
    (mem.poke addr bytes).writable = mem.writable := rfl

theorem poke_outside {a : Nat} (h : a < addr ∨ addr + bytes.length ≤ a) :
    (mem.poke addr bytes).byte a = mem.byte a := by
  simp only [Space.poke]
  split
  · rw [List.getD_eq_default _ _ (by omega)]
  · rfl

theorem peek_poke (mem : Space) (addr : Nat) (bytes : List UInt8) :
    (mem.poke addr bytes).peek addr bytes.length = bytes := by
  apply List.ext_getElem?
  intro i
  by_cases hi : i < bytes.length
  · rw [getElem?_peek hi]
    simp only [Space.poke, if_pos (Nat.le_add_right addr i), Nat.add_sub_cancel_left]
    rw [List.getD_eq_getElem _ _ hi, List.getElem?_eq_getElem hi]
  · rw [List.getElem?_eq_none (by rw [length_peek]; omega), List.getElem?_eq_none (by omega)]

theorem copyIn_of_allowed (h : Allowed mem.readable addr n) :
    mem.copyIn addr n = (mem.peek addr n, 0) := by
  simp only [Space.copyIn, reach_eq_iff.mpr h, Nat.sub_self]

-- What a process has stored is what is copied from it.
theorem copyIn_poke (h : Allowed mem.readable addr n) (hn : bytes.length = n) :
    (mem.poke addr bytes).copyIn addr n = (bytes, 0) := by
  subst hn
  have hreadable : Allowed (mem.poke addr bytes).readable addr bytes.length := h
  rw [copyIn_of_allowed hreadable, peek_poke]

theorem copyOut_of_allowed (h : Allowed mem.writable addr bytes.length) :
    mem.copyOut addr bytes = (mem.poke addr bytes, 0) := by
  simp only [Space.copyOut, reach_eq_iff.mpr h, Nat.sub_self, List.take_length]

theorem copyOut_outside {a : Nat} (h : a < addr ∨ addr + bytes.length ≤ a) :
    (mem.copyOut addr bytes).1.byte a = mem.byte a := by
  have hle := reach_le mem.writable addr bytes.length
  refine poke_outside (h.imp_right fun hout => ?_)
  rw [List.length_take]
  omega

end Copies

end UserSpace
