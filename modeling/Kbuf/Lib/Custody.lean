import Kbuf.Lib.Ledger
import Mathlib.Logic.Function.Basic

namespace Custody

open Ledger

variable {κ ο : Type*} [DecidableEq κ]

section Table

-- What was opened under a key by the call with a given number.
structure Instance (κ : Type*) where
  key : κ
  serial : Nat
  deriving DecidableEq

-- What is open under each key. A key can be used again after it has been closed, so the
-- calls that open something are numbered. `stray` counts the calls that closed nothing.
structure Table (κ : Type*) where
  entries : κ → Option Nat
  next : Nat
  ops : List (Op (Instance κ))
  stray : Nat

def Table.empty : Table κ := ⟨fun _ => none, 0, [], 0⟩

def Table.insert (t : Table κ) (k : κ) : Table κ :=
  { t with
    entries := Function.update t.entries k (some t.next)
    next := t.next + 1
    ops := t.ops ++ [.acquire ⟨k, t.next⟩] }

def Table.close (t : Table κ) (k : κ) : Table κ :=
  match t.entries k with
  | none => { t with stray := t.stray + 1 }
  | some n =>
      { t with
        entries := Function.update t.entries k none
        ops := t.ops ++ [.release ⟨k, n⟩] }

-- The record of the calls agrees with what is open.
structure Table.Sound (t : Table κ) : Prop where
  live : ∃ live, replay ∅ t.ops = some live ∧
    ∀ i, i ∈ live ↔ t.entries i.key = some i.serial
  nodup : (acquired t.ops).Nodup
  lt : ∀ i ∈ acquired t.ops, i.serial < t.next
  stray : t.stray = 0

variable {t : Table κ} {k : κ} {n : Nat}

theorem Table.sound_empty : (Table.empty : Table κ).Sound where
  live := ⟨∅, rfl, fun _ => ⟨nofun, nofun⟩⟩
  nodup := List.nodup_nil
  lt := nofun
  stray := rfl

-- Each opening has been closed once, unless it is still open.
theorem Table.Sound.balance (h : t.Sound) (i : Instance κ) :
    t.ops.count (.acquire i) =
      t.ops.count (.release i) + if t.entries i.key = some i.serial then 1 else 0 := by
  obtain ⟨live, hreplay, hlive⟩ := h.live
  have hcount := count_balance hreplay i
  rw [if_neg (Finset.notMem_empty i), Nat.add_zero] at hcount
  rw [hcount]
  simp only [hlive]

theorem Table.Sound.acquired_le (h : t.Sound) (i : Instance κ) :
    t.ops.count (.acquire i) ≤ 1 := by
  rw [count_acquire]
  exact List.nodup_iff_count_le_one.mp h.nodup i

theorem Table.Sound.released_le (h : t.Sound) (i : Instance κ) :
    t.ops.count (.release i) ≤ 1 := by
  have hbalance := h.balance i
  have hle := h.acquired_le i
  omega

theorem Table.Sound.released_of_open (h : t.Sound) {i : Instance κ}
    (hi : t.entries i.key = some i.serial) : t.ops.count (.release i) = 0 := by
  have hbalance := h.balance i
  have hle := h.acquired_le i
  rw [if_pos hi] at hbalance
  omega

theorem Table.Sound.acquired_of_open (h : t.Sound) (hk : t.entries k = some n) :
    ⟨k, n⟩ ∈ acquired t.ops := by
  have hbalance := h.balance ⟨k, n⟩
  rw [if_pos hk, count_acquire] at hbalance
  exact List.count_pos_iff.mp (by omega)

theorem Table.Sound.insert (h : t.Sound) (hk : t.entries k = none) : (t.insert k).Sound := by
  obtain ⟨live, hreplay, hlive⟩ := h.live
  have hfresh : (⟨k, t.next⟩ : Instance κ) ∉ live := by
    rw [hlive, hk]
    exact nofun
  have hnew : (⟨k, t.next⟩ : Instance κ) ∉ acquired t.ops := fun hmem =>
    Nat.lt_irrefl _ (h.lt _ hmem)
  have hacquired : acquired (t.insert k).ops = acquired t.ops ++ [⟨k, t.next⟩] :=
    acquired_append ..
  refine ⟨⟨Insert.insert ⟨k, t.next⟩ live, ?_, fun i => ?_⟩, ?_, fun i hi => ?_, h.stray⟩
  · exact (replay_append_of_some hreplay).trans (replay_acquire hfresh)
  · rw [Finset.mem_insert, hlive]
    obtain ⟨key, serial⟩ := i
    by_cases hkey : key = k
    · subst hkey
      simp [Table.insert, hk, eq_comm]
    · simp [Table.insert, hkey]
  · rw [hacquired]
    exact List.nodup_append'.mpr ⟨h.nodup, List.nodup_singleton _, by simpa using hnew⟩
  · rw [hacquired] at hi
    rcases List.mem_append.mp hi with hi | hi
    · exact Nat.lt_succ_of_lt (h.lt i hi)
    · obtain rfl := List.mem_singleton.mp hi
      exact Nat.lt_succ_self _

theorem Table.close_of_open (hk : t.entries k = some n) :
    t.close k = { t with
      entries := Function.update t.entries k none
      ops := t.ops ++ [.release ⟨k, n⟩] } := by
  simp only [Table.close, hk]

theorem Table.close_entries_of_ne (t : Table κ) {j : κ} (hne : j ≠ k) :
    (t.close k).entries j = t.entries j := by
  unfold Table.close
  split
  · rfl
  · exact Function.update_of_ne hne ..

theorem Table.acquired_close (t : Table κ) (k : κ) :
    acquired (t.close k).ops = acquired t.ops := by
  unfold Table.close
  split
  · rfl
  · rw [acquired_append]
    exact List.append_nil _

theorem Table.Sound.close (h : t.Sound) (hk : t.entries k = some n) : (t.close k).Sound := by
  obtain ⟨live, hreplay, hlive⟩ := h.live
  have hmem : (⟨k, n⟩ : Instance κ) ∈ live := (hlive _).mpr hk
  have hacquired := t.acquired_close k
  rw [Table.close_of_open hk] at hacquired ⊢
  refine ⟨⟨live.erase ⟨k, n⟩, ?_, fun i => ?_⟩, ?_, ?_, h.stray⟩
  · refine (replay_append_of_some hreplay).trans ?_
    simp [replay, Op.apply, hmem]
  · rw [Finset.mem_erase, hlive]
    obtain ⟨key, serial⟩ := i
    by_cases hkey : key = k
    · subst hkey
      simp [hk, eq_comm]
    · simp [hkey]
  · rw [hacquired]
    exact h.nodup
  · rw [hacquired]
    exact h.lt

end Table

section Keepers

-- Objects that hold at most one key each. `obtained` is what some object has held so far
-- and `givenUp` what was let go without being closed.
structure Keepers (ο κ : Type*) where
  table : Table κ
  held : ο → Option κ
  obtained : List (Instance κ)
  givenUp : List (Instance κ)

-- No key is held twice, what is held is open, and what an object has held stays open only
-- if it is held or was given up.
structure Keepers.Sound (c : Keepers ο κ) : Prop where
  table : c.table.Sound
  opened : ∀ o k, c.held o = some k → ∃ n, c.table.entries k = some n
  alone : ∀ o p k, c.held o = some k → c.held p = some k → o = p
  acquired : ∀ i ∈ c.obtained, i ∈ acquired c.table.ops
  kept : ∀ i ∈ c.obtained, c.table.entries i.key = some i.serial →
    (∃ o, c.held o = some i.key) ∨ i ∈ c.givenUp

variable {c : Keepers ο κ} {o p : ο} {k : κ} {n : Nat}

-- Somebody else opens or closes a key.
def Keepers.insert (c : Keepers ο κ) (k : κ) : Keepers ο κ := { c with table := c.table.insert k }

def Keepers.close (c : Keepers ο κ) (k : κ) : Keepers ο κ := { c with table := c.table.close k }

theorem Keepers.Sound.insert (h : c.Sound) (hk : c.table.entries k = none) :
    (c.insert k).Sound where
  table := h.table.insert hk
  opened o j hj := by
    obtain ⟨n, hn⟩ := h.opened o j hj
    have hne : j ≠ k := by
      rintro rfl
      cases hk.symm.trans hn
    exact ⟨n, by simpa [Keepers.insert, Table.insert, hne] using hn⟩
  alone := h.alone
  acquired i hi := by
    rw [show (c.insert k).table.ops = c.table.ops ++ _ from rfl, acquired_append]
    exact List.mem_append_left _ (h.acquired i hi)
  kept i hi hopen := by
    have hne : i.key ≠ k := by
      rintro rfl
      have hserial : c.table.next = i.serial := by
        simpa [Keepers.insert, Table.insert] using hopen
      exact Nat.ne_of_gt (h.table.lt i (h.acquired i hi)) hserial
    refine h.kept i hi ?_
    simpa [Keepers.insert, Table.insert, hne] using hopen

-- Closing a key that nobody holds afterwards.
theorem Keepers.Sound.closed (h : c.Sound) (hk : c.table.entries k = some n)
    {held : ο → Option κ} (hheld : ∀ o j, held o = some j ↔ c.held o = some j ∧ j ≠ k) :
    ({ c with table := c.table.close k, held := held } : Keepers ο κ).Sound where
  table := h.table.close hk
  opened o j hj := by
    obtain ⟨hj, hne⟩ := (hheld o j).mp hj
    obtain ⟨m, hm⟩ := h.opened o j hj
    exact ⟨m, by simpa [Table.close_of_open hk, hne] using hm⟩
  alone o p j ho hp := h.alone o p j ((hheld o j).mp ho).1 ((hheld p j).mp hp).1
  acquired i hi := by
    rw [Table.acquired_close]
    exact h.acquired i hi
  kept i hi hopen := by
    simp only [Table.close_of_open hk] at hopen
    have hne : i.key ≠ k := by
      rintro rfl
      simp at hopen
    rw [Function.update_of_ne hne] at hopen
    rcases h.kept i hi hopen with ⟨o, ho⟩ | hgiven
    · exact Or.inl ⟨o, (hheld o i.key).mpr ⟨ho, hne⟩⟩
    · exact Or.inr hgiven

theorem Keepers.Sound.close (h : c.Sound) (hk : c.table.entries k = some n)
    (hfree : ∀ o, c.held o ≠ some k) : (c.close k).Sound := by
  refine h.closed hk fun o j => ⟨fun hj => ⟨hj, ?_⟩, fun hj => hj.1⟩
  rintro rfl
  exact hfree o hj

-- When nothing is held any more, what was not given up has been closed once.
theorem Keepers.Sound.settled (h : c.Sound) (hnone : ∀ o, c.held o = none) {i : Instance κ}
    (hi : i ∈ c.obtained) (hgiven : i ∉ c.givenUp) : c.table.ops.count (.release i) = 1 := by
  have hclosed : c.table.entries i.key ≠ some i.serial := by
    intro hopen
    rcases h.kept i hi hopen with ⟨o, ho⟩ | hmem
    · cases (hnone o).symm.trans ho
    · exact hgiven hmem
  have hbalance := h.table.balance i
  have hle := h.table.acquired_le i
  have hpos := List.count_pos_iff.mpr (h.acquired i hi)
  rw [if_neg hclosed] at hbalance
  rw [← count_acquire] at hpos
  omega

variable [DecidableEq ο]

-- The object closes what it holds.
def Keepers.drop (c : Keepers ο κ) (o : ο) : Keepers ο κ :=
  match c.held o with
  | none => c
  | some k => { c with table := c.table.close k, held := Function.update c.held o none }

theorem Keepers.Sound.drop (h : c.Sound) (o : ο) : (c.drop o).Sound := by
  unfold Keepers.drop
  split
  · exact h
  · rename_i k ho
    obtain ⟨n, hn⟩ := h.opened o k ho
    refine h.closed hn fun p j => ?_
    by_cases hp : p = o
    · subst hp
      simp [ho, eq_comm]
    · rw [Function.update_of_ne hp]
      refine ⟨fun hj => ⟨hj, ?_⟩, fun hj => hj.1⟩
      rintro rfl
      exact hp (h.alone p o j hj ho)

def Table.instances (t : Table κ) (k : κ) : List (Instance κ) :=
  ((t.entries k).map fun n => ⟨k, n⟩).toList

omit [DecidableEq κ] in
theorem Table.mem_instances {t : Table κ} {i : Instance κ} :
    i ∈ t.instances k ↔ i.key = k ∧ t.entries k = some i.serial := by
  obtain ⟨key, serial⟩ := i
  simp only [Table.instances, Option.mem_toList, Option.map_eq_some_iff,
    Instance.mk.injEq]
  constructor
  · rintro ⟨n, hn, rfl, rfl⟩
    exact ⟨rfl, hn⟩
  · rintro ⟨rfl, hn⟩
    exact ⟨serial, hn, rfl, rfl⟩

-- The object takes an open key.
def Keepers.take (c : Keepers ο κ) (o : ο) (k : κ) : Keepers ο κ :=
  { c with
    held := Function.update c.held o (some k)
    obtained := c.table.instances k ++ c.obtained
    givenUp := c.givenUp.filter (· ∉ c.table.instances k) }

theorem Keepers.Sound.take (h : c.Sound) (ho : c.held o = none) (hk : c.table.entries k = some n)
    (hfree : ∀ p, c.held p ≠ some k) : (c.take o k).Sound := by
  have hheld (p : ο) (j : κ) :
      (c.take o k).held p = some j ↔ (p = o ∧ j = k) ∨ c.held p = some j := by
    by_cases hp : p = o
    · subst hp
      simp [Keepers.take, ho, eq_comm]
    · simp [Keepers.take, hp]
  refine ⟨h.table, fun p j hj => ?_, fun p q j hp hq => ?_, fun i hi => ?_, fun i hi hopen => ?_⟩
  · rcases (hheld p j).mp hj with ⟨-, rfl⟩ | hj
    · exact ⟨n, hk⟩
    · exact h.opened p j hj
  · rcases (hheld p j).mp hp with ⟨rfl, rfl⟩ | hpold
    · rcases (hheld q j).mp hq with ⟨rfl, -⟩ | hqold
      · rfl
      · exact absurd hqold (hfree q)
    · rcases (hheld q j).mp hq with ⟨rfl, rfl⟩ | hqold
      · exact absurd hpold (hfree p)
      · exact h.alone p q j hpold hqold
  · rcases List.mem_append.mp hi with hi | hi
    · obtain ⟨rfl, hserial⟩ := Table.mem_instances.mp hi
      exact h.table.acquired_of_open hserial
    · exact h.acquired i hi
  · by_cases hkey : i.key = k
    · exact Or.inl ⟨o, (hheld o i.key).mpr (Or.inl ⟨rfl, hkey⟩)⟩
    · have hnew : i ∉ c.table.instances k := fun hmem => hkey (Table.mem_instances.mp hmem).1
      have hold : i ∈ c.obtained := (List.mem_append.mp hi).resolve_left hnew
      rcases h.kept i hold hopen with ⟨p, hp⟩ | hgiven
      · exact Or.inl ⟨p, (hheld p i.key).mpr (Or.inr hp)⟩
      · exact Or.inr (List.mem_filter.mpr ⟨hgiven, by simpa using hnew⟩)

-- What one object holds passes to another one that holds nothing.
def Keepers.pass (c : Keepers ο κ) (src dst : ο) : Keepers ο κ :=
  { c with held := Function.update (Function.update c.held dst (c.held src)) src none }

theorem Keepers.Sound.pass (h : c.Sound) (hp : c.held p = none) (hne : o ≠ p) :
    (c.pass o p).Sound := by
  have hheld (q : ο) (j : κ) : (c.pass o p).held q = some j ↔
      q ≠ o ∧ ((q = p ∧ c.held o = some j) ∨ c.held q = some j) := by
    by_cases hqo : q = o
    · simp [Keepers.pass, hqo]
    · by_cases hqp : q = p
      · subst hqp
        simp [Keepers.pass, hqo, hp]
      · simp [Keepers.pass, hqo, hqp]
  refine ⟨h.table, fun q j hq => ?_, fun q r j hq hr => ?_, h.acquired, fun i hi hopen => ?_⟩
  · rcases ((hheld q j).mp hq).2 with ⟨-, ho⟩ | hq
    · exact h.opened o j ho
    · exact h.opened q j hq
  · obtain ⟨hqo, hqcases⟩ := (hheld q j).mp hq
    obtain ⟨hro, hrcases⟩ := (hheld r j).mp hr
    rcases hqcases with ⟨rfl, ho⟩ | hqold
    · rcases hrcases with ⟨rfl, -⟩ | hrold
      · rfl
      · exact absurd (h.alone r o j hrold ho) hro
    · rcases hrcases with ⟨rfl, ho⟩ | hrold
      · exact absurd (h.alone q o j hqold ho) hqo
      · exact h.alone q r j hqold hrold
  · rcases h.kept i hi hopen with ⟨q, hq⟩ | hgiven
    · by_cases hqo : q = o
      · subst hqo
        exact Or.inl ⟨p, (hheld p i.key).mpr ⟨hne.symm, Or.inl ⟨rfl, hq⟩⟩⟩
      · exact Or.inl ⟨q, (hheld q i.key).mpr ⟨hqo, Or.inr hq⟩⟩
    · exact Or.inr hgiven

-- The object forgets what it holds and leaves it open.
def Keepers.giveUp (c : Keepers ο κ) (o : ο) : Keepers ο κ :=
  match c.held o with
  | none => c
  | some k =>
      { c with
        held := Function.update c.held o none
        givenUp := c.table.instances k ++ c.givenUp }

theorem Keepers.Sound.giveUp (h : c.Sound) (o : ο) : (c.giveUp o).Sound := by
  unfold Keepers.giveUp
  split
  · exact h
  · rename_i k ho
    have hheld (q : ο) (j : κ) :
        Function.update c.held o none q = some j ↔ q ≠ o ∧ c.held q = some j := by
      by_cases hq : q = o
      · simp [hq]
      · simp [hq]
    refine ⟨h.table, fun q j hq => ?_, fun q r j hq hr => ?_, h.acquired, fun i hi hopen => ?_⟩
    · exact h.opened q j ((hheld q j).mp hq).2
    · exact h.alone q r j ((hheld q j).mp hq).2 ((hheld r j).mp hr).2
    · rcases h.kept i hi hopen with ⟨q, hq⟩ | hgiven
      · by_cases hqo : q = o
        · subst hqo
          obtain rfl : i.key = k := Option.some.inj (hq.symm.trans ho)
          exact Or.inr (List.mem_append_left _ (Table.mem_instances.mpr ⟨rfl, hopen⟩))
        · exact Or.inl ⟨q, (hheld q i.key).mpr ⟨hqo, hq⟩⟩
      · exact Or.inr (List.mem_append_right _ hgiven)

end Keepers

end Custody
