import Mathlib.Algebra.Order.Group.Nat
import Mathlib.Algebra.Order.Ring.Nat

namespace Words

-- The number that bytes stand for, the least significant one first.
def ofBytes : List UInt8 → Nat
  | [] => 0
  | byte :: bytes => byte.toNat + 256 * ofBytes bytes

-- The `n` low bytes of a number.
def toBytes : (n value : Nat) → List UInt8
  | 0, _ => []
  | n + 1, value => UInt8.ofNat value :: toBytes n (value / 256)

@[simp] theorem length_toBytes (n value : Nat) : (toBytes n value).length = n := by
  induction n generalizing value with
  | zero => rfl
  | succ n ih => rw [toBytes, List.length_cons, ih]

theorem ofBytes_toBytes (n value : Nat) : ofBytes (toBytes n value) = value % 256 ^ n := by
  induction n generalizing value with
  | zero =>
      rw [Nat.pow_zero, Nat.mod_one]
      rfl
  | succ n ih =>
      have hlow : (UInt8.ofNat value).toNat = value % 256 := UInt8.toNat_ofNat'
      rw [toBytes, ofBytes, ih, hlow, Nat.pow_succ', Nat.mod_mul]

theorem ofBytes_lt (bytes : List UInt8) : ofBytes bytes < 256 ^ bytes.length := by
  induction bytes with
  | nil => exact Nat.one_pos
  | cons byte bytes ih =>
      have hlt : byte.toNat < 256 := byte.toNat_lt
      rw [ofBytes, List.length_cons, Nat.pow_succ']
      omega

theorem toBytes_ofBytes (bytes : List UInt8) : toBytes bytes.length (ofBytes bytes) = bytes := by
  induction bytes with
  | nil => rfl
  | cons byte bytes ih =>
      have hlt : byte.toNat < 256 := byte.toNat_lt
      have hlow : UInt8.ofNat (byte.toNat + 256 * ofBytes bytes) = byte := by
        apply UInt8.toNat_inj.mp
        rw [UInt8.toNat_ofNat', Nat.add_mul_mod_self_left, Nat.mod_eq_of_lt hlt]
      have hhigh : (byte.toNat + 256 * ofBytes bytes) / 256 = ofBytes bytes := by omega
      rw [List.length_cons, ofBytes, toBytes, hlow, hhigh, ih]

section Records

-- A record whose members follow one another without gaps, given by their widths.
def pack : (widths values : List Nat) → List UInt8
  | n :: widths, value :: values => toBytes n value ++ pack widths values
  | _, _ => []

def unpack : (widths : List Nat) → List UInt8 → List Nat
  | [], _ => []
  | n :: widths, bytes => ofBytes (bytes.take n) :: unpack widths (bytes.drop n)

-- Every member has its value in its width.
def Fits : (widths values : List Nat) → Prop
  | n :: widths, value :: values => value < 256 ^ n ∧ Fits widths values
  | [], [] => True
  | _, _ => False

variable {widths values : List Nat}

theorem length_pack (h : widths.length = values.length) :
    (pack widths values).length = widths.sum := by
  induction widths generalizing values with
  | nil => rfl
  | cons n widths ih =>
      cases values with
      | nil => cases h
      | cons value values =>
          rw [pack, List.length_append, length_toBytes, ih (Nat.succ.inj h), List.sum_cons]

theorem unpack_pack (h : Fits widths values) : unpack widths (pack widths values) = values := by
  induction widths generalizing values with
  | nil =>
      cases values with
      | nil => rfl
      | cons value values => exact h.elim
  | cons n widths ih =>
      cases values with
      | nil => exact h.elim
      | cons value values =>
          have hlen := length_toBytes n value
          rw [pack, unpack, List.take_left' hlen, List.drop_left' hlen, ofBytes_toBytes,
            Nat.mod_eq_of_lt h.1, ih h.2]

end Records

section Memory

-- The word of `n` bytes at an offset.
def load (mem : List UInt8) (off n : Nat) : Nat := ofBytes ((mem.drop off).take n)

def store (mem : List UInt8) (off n value : Nat) : List UInt8 :=
  mem.take off ++ (toBytes n value ++ mem.drop (off + n))

variable {mem : List UInt8} {off n : Nat}

theorem length_store (h : off + n ≤ mem.length) (value : Nat) :
    (store mem off n value).length = mem.length := by
  simp only [store, List.length_append, List.length_take, length_toBytes, List.length_drop]
  omega

theorem load_store_self (h : off + n ≤ mem.length) (value : Nat) :
    load (store mem off n value) off n = value % 256 ^ n := by
  have hoff : (mem.take off).length = off := by
    rw [List.length_take]
    omega
  rw [load, store, List.drop_append_of_le_length (by omega), List.drop_eq_nil_of_le (by omega),
    List.nil_append, List.take_append_of_le_length (by rw [length_toBytes]),
    List.take_of_length_le (by rw [length_toBytes]), ofBytes_toBytes]

theorem load_lt (mem : List UInt8) (off n : Nat) : load mem off n < 256 ^ n := by
  refine Nat.lt_of_lt_of_le (ofBytes_lt _) (Nat.pow_le_pow_right (by decide) ?_)
  rw [List.length_take]
  omega

-- A word that is copied to the place behind it.
theorem store_load_behind (h : off + n + n ≤ mem.length) :
    store mem (off + n) n (load mem off n) =
      mem.take (off + n) ++ ((mem.drop off).take n ++ mem.drop (off + n + n)) := by
  have hlen : ((mem.drop off).take n).length = n := by
    rw [List.length_take, List.length_drop]
    omega
  have hbytes := toBytes_ofBytes ((mem.drop off).take n)
  rw [hlen] at hbytes
  rw [store, load, hbytes]

-- A store leaves the words that it does not overlap.
theorem load_store_of_disjoint (h : off + n ≤ mem.length) (value : Nat) {other m : Nat}
    (hdisjoint : other + m ≤ off ∨ off + n ≤ other) :
    load (store mem off n value) other m = load mem other m := by
  rw [load, load]
  congr 1
  apply List.ext_getElem?
  intro i
  rw [List.getElem?_take, List.getElem?_take]
  split
  · rw [List.getElem?_drop, List.getElem?_drop, store]
    rcases hdisjoint with hbefore | hafter
    · rw [List.getElem?_append_left (by rw [List.length_take]; omega),
        List.getElem?_take_of_lt (by omega)]
    · rw [List.getElem?_append_right (by rw [List.length_take]; omega),
        List.getElem?_append_right (by rw [List.length_take, length_toBytes]; omega),
        List.getElem?_drop]
      congr 1
      simp only [List.length_take, length_toBytes]
      omega
  · rfl

end Memory

end Words
