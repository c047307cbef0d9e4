import Mathlib.Data.BitVec
import Mathlib.Algebra.BigOperators.Group.List.Basic

namespace CounterPair

variable {w : Nat}

-- Where the owner of two counters is in entering an item into both. Each counter
-- is loaded and then stored, the total before the count.
inductive Phase (w : Nat) where
  | rest
  | recorded
  | addTotal (seen : BitVec w)
  | between
  | addCount (seen : BitVec w)
  | counted
  deriving DecidableEq

-- The points where the two counters speak of the same items.
def Phase.settled : Phase w → Bool
  | .rest | .recorded | .counted => true
  | .addTotal _ | .between | .addCount _ => false

-- The items so far by their sizes, oldest first, and the two counters. While
-- `clearing`, somebody else has cleared the total and not yet the count.
@[ext] structure Gauge (w : Nat) where
  items : List Nat
  total : BitVec w
  count : BitVec w
  phase : Phase w
  clearing : Prop

namespace Gauge

-- The items that have been added to the total.
def totalled (g : Gauge w) : List Nat :=
  match g.phase with
  | .recorded | .addTotal _ => g.items.dropLast
  | .rest | .between | .addCount _ | .counted => g.items

-- The items that have been added to the count.
def tallied (g : Gauge w) : List Nat :=
  match g.phase with
  | .recorded | .addTotal _ | .between | .addCount _ => g.items.dropLast
  | .rest | .counted => g.items

-- The number of items that the owner is done with.
def finished (g : Gauge w) : Nat :=
  match g.phase with
  | .rest => g.items.length
  | _ => g.items.length - 1

inductive Step (g : Gauge w) : Gauge w → Prop
  | stay : Step g g
  | record (size : Nat) (h : g.phase = .rest) :
      Step g { g with items := g.items ++ [size], phase := .recorded }
  | loadTotal (h : g.phase = .recorded) : Step g { g with phase := .addTotal g.total }
  | storeTotal (seen : BitVec w) (size : Nat) (h : g.phase = .addTotal seen)
      (hlast : g.items.getLast? = some size) :
      Step g { g with total := seen + BitVec.ofNat w size, phase := .between }
  | loadCount (h : g.phase = .between) : Step g { g with phase := .addCount g.count }
  | storeCount (seen : BitVec w) (h : g.phase = .addCount seen) (hclear : ¬g.clearing) :
      Step g { g with count := seen + 1, phase := .counted }
  | finish (h : g.phase = .counted) : Step g { g with phase := .rest }
  | clearTotal (h : g.phase.settled = true) : Step g { g with total := 0, clearing := True }
  | clearCount (h : ∀ seen, g.phase ≠ .addCount seen) (hclear : g.clearing) :
      Step g { g with count := 0, clearing := False }

-- An item that is on its way into the counters is there.
def Pending (g : Gauge w) : Prop := g.phase ≠ .rest → g.items ≠ []

-- The counters hold the items from `start` on, and `start` is not below `bound`.
structure Counts (bound : Nat) (g : Gauge w) : Prop where
  pending : g.Pending
  seen_total : ∀ seen, g.phase = .addTotal seen → seen = g.total
  seen_count : ∀ seen, g.phase = .addCount seen → seen = g.count
  start : ∃ start, bound ≤ start ∧ start ≤ g.tallied.length ∧
    g.total = BitVec.ofNat w (g.totalled.drop start).sum ∧
    (g.clearing → start = g.tallied.length) ∧
    (¬g.clearing → g.count = BitVec.ofNat w (g.tallied.length - start))

section Lists

theorem sum_drop_concat (items : List Nat) (size start : Nat) (h : start ≤ items.length) :
    ((items ++ [size]).drop start).sum = (items.drop start).sum + size := by
  rw [List.drop_append_of_le_length h, List.sum_append, List.sum_singleton]

theorem eq_dropLast_concat {items : List Nat} {size : Nat} (h : items.getLast? = some size) :
    items = items.dropLast ++ [size] := by
  obtain ⟨rest, rfl⟩ := List.getLast?_eq_some_iff.mp h
  rw [List.dropLast_concat]

end Lists

variable {g g' : Gauge w} {bound : Nat}

theorem finished_le_tallied (g : Gauge w) : g.finished ≤ g.tallied.length := by
  unfold finished tallied
  cases g.phase <;> simp

theorem pending_step (hp : g.Pending) (h : Step g g') : g'.Pending := by
  cases h with
  | stay | clearTotal | clearCount => exact hp
  | record => exact fun _ => by simp
  | loadTotal h | storeTotal _ _ h | loadCount h | storeCount _ h => exact fun _ => hp (by simp [h])
  | finish => exact fun h => absurd rfl h

-- One more item is done with when the owner finishes, and at no other step.
theorem finished_step (hp : g.Pending) (h : Step g g') :
    g'.finished = g.finished + if g.phase = .counted ∧ g'.phase = .rest then 1 else 0 := by
  cases h with
  | stay | clearTotal | clearCount =>
      rw [if_neg fun h => absurd (h.1.symm.trans h.2) nofun]
      rfl
  | record _ h | loadTotal h | storeTotal _ _ h | loadCount h | storeCount _ h =>
      simp [finished, h]
  | finish h =>
      have hpos := List.length_pos_iff.mpr (hp (by simp [h]))
      simp only [finished, h, and_self, if_true]
      omega

-- A clear of the total at a settled point starts the counters over.
theorem counts_clear (hp : g.Pending) (hsettled : g.phase.settled = true)
    (hbound : bound ≤ g.tallied.length) : Counts bound { g with total := 0, clearing := True } := by
  have hsame : g.totalled = g.tallied := by
    unfold totalled tallied
    cases hphase : g.phase with
    | rest | recorded | counted => rfl
    | addTotal | between | addCount =>
        exact absurd ((congrArg Phase.settled hphase).symm.trans hsettled) nofun
  refine ⟨hp, fun seen h => ?_, fun seen h => ?_, g.tallied.length, hbound, Nat.le_refl _, ?_,
    fun _ => rfl, fun h => absurd trivial h⟩
  · have hphase : g.phase = .addTotal seen := h
    rw [hphase] at hsettled
    cases hsettled
  · have hphase : g.phase = .addCount seen := h
    rw [hphase] at hsettled
    cases hsettled
  · change 0 = BitVec.ofNat w (g.totalled.drop g.tallied.length).sum
    rw [hsame, List.drop_length]
    rfl

theorem counts_step (hc : Counts bound g) (h : Step g g') : Counts bound g' := by
  obtain ⟨hpending, htotal, hcount, start, hbound, hstart, hsum, hclear, hleft⟩ := hc
  cases h with
  | stay => exact ⟨hpending, htotal, hcount, start, hbound, hstart, hsum, hclear, hleft⟩
  | record size hp =>
      simp only [tallied, totalled, hp] at hstart hsum hclear hleft
      refine ⟨fun _ => by simp, fun _ => nofun, fun _ => nofun, start, hbound, ?_⟩
      simp only [tallied, totalled, List.dropLast_concat]
      exact ⟨hstart, hsum, hclear, hleft⟩
  | loadTotal hp =>
      simp only [tallied, totalled, hp] at hstart hsum hclear hleft
      refine ⟨fun _ => hpending (by simp [hp]), ?_, fun _ => nofun, start, hbound, ?_⟩
      · intro seen h
        cases h
        rfl
      · exact ⟨hstart, hsum, hclear, hleft⟩
  | storeTotal seen size hp hlast =>
      simp only [tallied, totalled, hp] at hstart hsum hclear hleft
      refine ⟨fun _ => hpending (by simp [hp]), fun _ => nofun, fun _ => nofun,
        start, hbound, hstart, ?_, hclear, hleft⟩
      have hitems := eq_dropLast_concat hlast
      have hnew : (g.items.drop start).sum = (g.items.dropLast.drop start).sum + size := by
        conv_lhs => rw [hitems]
        exact sum_drop_concat _ _ _ hstart
      simp only [totalled, hnew, BitVec.ofNat_add, htotal seen hp, hsum]
  | loadCount hp =>
      simp only [tallied, totalled, hp] at hstart hsum hclear hleft
      refine ⟨fun _ => hpending (by simp [hp]), fun _ => nofun, ?_, start, hbound, ?_⟩
      · intro seen h
        cases h
        rfl
      · exact ⟨hstart, hsum, hclear, hleft⟩
  | storeCount seen hp hnot =>
      simp only [tallied, totalled, hp] at hstart hsum hclear hleft
      have hne : g.items ≠ [] := hpending (by simp [hp])
      have hlen : g.items.length = g.items.dropLast.length + 1 := by
        have := List.length_pos_iff.mpr hne
        rw [List.length_dropLast]
        omega
      refine ⟨fun _ => hne, fun _ => nofun, fun _ => nofun, start, hbound, ?_⟩
      simp only [tallied, totalled]
      refine ⟨by omega, hsum, fun h => absurd h hnot, fun _ => ?_⟩
      rw [hcount seen hp, hleft hnot, hlen, Nat.sub_add_comm hstart, BitVec.ofNat_add]
      rfl
  | finish hp =>
      simp only [tallied, totalled, hp] at hstart hsum hclear hleft
      exact ⟨fun h => absurd rfl h, fun _ => nofun, fun _ => nofun, start, hbound,
        hstart, hsum, hclear, hleft⟩
  | clearTotal hp => exact counts_clear hpending hp (Nat.le_trans hbound hstart)
  | clearCount hp hnow =>
      refine ⟨hpending, htotal, fun seen h => absurd h (hp seen), start, hbound, hstart, hsum,
        fun h => h.elim, fun _ => ?_⟩
      change 0 = BitVec.ofNat w (g.tallied.length - start)
      rw [hclear hnow, Nat.sub_self]
      rfl

-- At rest, both counters hold the same last items.
theorem Counts.at_rest (h : Counts bound g) (hrest : g.phase = .rest) (hclear : ¬g.clearing) :
    ∃ k, bound + k ≤ g.items.length ∧ g.count = BitVec.ofNat w k ∧
      g.total = BitVec.ofNat w (g.items.drop (g.items.length - k)).sum := by
  obtain ⟨start, hbound, hstart, hsum, -, hleft⟩ := h.start
  simp only [tallied, totalled, hrest] at hstart hsum hleft
  refine ⟨g.items.length - start, by omega, hleft hclear, ?_⟩
  rw [hsum, Nat.sub_sub_self hstart]

end Gauge

end CounterPair
