import Mathlib.Data.BitVec
import Mathlib.Data.Nat.ModEq

namespace FreeRunning

variable {w : Nat}

-- The number of published, unread positions between two free-running indices.
def depth (head tail : BitVec w) : Nat := (head - tail).toNat

@[simp] theorem depth_self (index : BitVec w) : depth index index = 0 := by
  simp [depth]

theorem depth_lt (head tail : BitVec w) : depth head tail < 2 ^ w := (head - tail).isLt

theorem depth_eq_zero_iff (head tail : BitVec w) : depth head tail = 0 ↔ head = tail := by
  constructor
  · intro h
    have hz : head - tail = 0 := BitVec.eq_of_toNat_eq (by simpa [depth] using h)
    exact sub_eq_zero.mp hz
  · rintro rfl
    exact depth_self head

theorem depth_advance_head (head tail : BitVec w) (n : Nat) (h : depth head tail + n < 2 ^ w) :
    depth (head + BitVec.ofNat w n) tail = depth head tail + n := by
  have he : head + BitVec.ofNat w n - tail = (head - tail) + BitVec.ofNat w n :=
    add_sub_right_comm ..
  unfold depth at h ⊢
  rw [he, BitVec.toNat_add, BitVec.toNat_ofNat, Nat.add_mod_mod, Nat.mod_eq_of_lt h]

theorem depth_advance_tail (head tail : BitVec w) (n : Nat) (h : n ≤ depth head tail) :
    depth head (tail + BitVec.ofNat w n) = depth head tail - n := by
  have hlt := depth_lt head tail
  have he : head - (tail + BitVec.ofNat w n) = (head - tail) - BitVec.ofNat w n :=
    sub_add_eq_sub_sub ..
  unfold depth at h hlt ⊢
  have hn : (BitVec.ofNat w n).toNat = n := by
    rw [BitVec.toNat_ofNat, Nat.mod_eq_of_lt (by omega)]
  rw [he, BitVec.toNat_sub_of_le (by rw [BitVec.le_def, hn]; exact h), hn]

theorem dvd_two_pow {cap : Nat} (hcap : cap.isPowerOfTwo) (hlt : cap < 2 ^ w) : cap ∣ 2 ^ w := by
  obtain ⟨k, rfl⟩ := hcap
  have hk : k < w := (Nat.pow_lt_pow_iff_right (by omega)).mp hlt
  exact Nat.pow_dvd_pow 2 hk.le

-- An index that wraps past the end of the word keeps its position in the ring.
theorem advance_mod {cap : Nat} (hcap : cap ∣ 2 ^ w) (index : BitVec w) (n : Nat) :
    (index + BitVec.ofNat w n).toNat % cap = (index.toNat + n) % cap := by
  rw [BitVec.toNat_add, BitVec.toNat_ofNat, Nat.mod_mod_of_dvd _ hcap, Nat.add_mod,
    Nat.mod_mod_of_dvd _ hcap, ← Nat.add_mod]

theorem head_mod {cap : Nat} (hcap : cap ∣ 2 ^ w) (head tail : BitVec w) :
    head.toNat % cap = (tail.toNat + depth head tail) % cap := by
  have he : head = tail + BitVec.ofNat w (depth head tail) := by
    simp only [depth, BitVec.ofNat_toNat, BitVec.setWidth_eq, add_sub_cancel]
  conv_lhs => rw [he]
  exact advance_mod hcap tail (depth head tail)

-- An index that stands for an unbounded position.
theorem ofNat_mod {cap : Nat} (hcap : cap ∣ 2 ^ w) (n : Nat) :
    (BitVec.ofNat w n).toNat % cap = n % cap := by
  rw [BitVec.toNat_ofNat, Nat.mod_mod_of_dvd _ hcap]

theorem depth_ofNat {head tail : Nat} (hle : tail ≤ head) (hlt : head < tail + 2 ^ w) :
    depth (BitVec.ofNat w head) (BitVec.ofNat w tail) = head - tail := by
  obtain ⟨n, rfl⟩ := Nat.exists_eq_add_of_le hle
  rw [BitVec.ofNat_add, depth_advance_head _ _ _ (by rw [depth_self]; omega), depth_self]
  omega

-- Indices that advance by multiples of `d` only stay a multiple of `d` apart.
theorem dvd_advance {d n : Nat} (hd : d ∣ 2 ^ w) {index : BitVec w} (hindex : d ∣ index.toNat)
    (hn : d ∣ n) : d ∣ (index + BitVec.ofNat w n).toNat := by
  apply Nat.dvd_of_mod_eq_zero
  rw [advance_mod hd]
  exact Nat.mod_eq_zero_of_dvd (Nat.dvd_add hindex hn)

theorem dvd_depth {d : Nat} (hd : d ∣ 2 ^ w) {head tail : BitVec w} (hhead : d ∣ head.toNat)
    (htail : d ∣ tail.toNat) : d ∣ depth head tail := by
  have hmod := head_mod hd head tail
  rw [Nat.mod_eq_zero_of_dvd hhead] at hmod
  exact (Nat.dvd_add_right htail).mp (Nat.dvd_of_mod_eq_zero hmod.symm)

theorem toNat_mask {cap : Nat} (hpos : 1 ≤ cap) (hlt : cap < 2 ^ w) :
    (BitVec.ofNat w cap - 1).toNat = cap - 1 := by
  have hone : (1 : BitVec w).toNat = 1 := by
    simp [Nat.mod_eq_of_lt (show 1 < 2 ^ w by omega)]
  have hcap : (BitVec.ofNat w cap).toNat = cap := by
    rw [BitVec.toNat_ofNat, Nat.mod_eq_of_lt hlt]
  rw [BitVec.toNat_sub_of_le, hcap, hone]
  rw [BitVec.le_def, hcap, hone]
  exact hpos

-- A masked index stays below the capacity, whatever the capacity.
theorem mask_lt {cap : Nat} (hpos : 1 ≤ cap) (hlt : cap < 2 ^ w) (index : BitVec w) :
    (index &&& (BitVec.ofNat w cap - 1)).toNat < cap := by
  have hle : (index &&& (BitVec.ofNat w cap - 1)).toNat ≤ cap - 1 := by
    rw [BitVec.toNat_and, toNat_mask hpos hlt]
    exact Nat.and_le_right
  omega

-- Masking with a power-of-two capacity less one is reduction modulo it.
theorem mask_eq_mod {cap : Nat} (hcap : cap.isPowerOfTwo) (hlt : cap < 2 ^ w) (index : BitVec w) :
    (index &&& (BitVec.ofNat w cap - 1)).toNat = index.toNat % cap := by
  rw [BitVec.toNat_and, toNat_mask (Nat.pos_of_isPowerOfTwo hcap) hlt]
  obtain ⟨k, rfl⟩ := hcap
  exact Nat.and_two_pow_sub_one_eq_mod _ _

end FreeRunning
