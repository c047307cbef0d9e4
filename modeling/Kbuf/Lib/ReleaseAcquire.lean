import Mathlib.Logic.Function.Basic

namespace ReleaseAcquire

variable {ι κ α β : Type*}

-- What a thread knows: the newest store it has seen to each atomic location, and how
-- many plain accesses of each thread have happened before.
structure View (ι : Type*) where
  seen : ι → Nat
  clock : Nat → Nat

def View.nothing : View ι := ⟨fun _ => 0, fun _ => 0⟩

def View.join (v w : View ι) : View ι where
  seen l := max (v.seen l) (w.seen l)
  clock q := max (v.clock q) (w.clock q)

-- A store to an atomic location, with what its thread knew if the store was a release.
structure Message (ι α : Type*) where
  value : α
  view : View ι

inductive Kind where
  | read
  | write
  deriving DecidableEq, Repr

-- A plain access: who made it, and as which of its plain accesses.
structure Access where
  thread : Nat
  time : Nat
  kind : Kind
  deriving DecidableEq, Repr

inductive LoadOrder where
  | relaxed
  | acquire
  deriving DecidableEq, Repr

inductive StoreOrder where
  | relaxed
  | release
  deriving DecidableEq, Repr

-- Atomic locations with all their stores, and plain cells with all their accesses. Each
-- atomic location has one thread that stores to it, so its stores are in the order in
-- which they are made.
structure Memory (ι κ α β : Type*) where
  history : ι → List (Message ι α)
  cell : κ → β
  accesses : κ → List Access
  view : Nat → View ι
  raced : Bool

section Operations

def Memory.setView (m : Memory ι κ α β) (me : Nat) (v : View ι) : Memory ι κ α β :=
  { m with view := Function.update m.view me v }

def View.tick (v : View ι) (me : Nat) : View ι :=
  { v with clock := Function.update v.clock me (v.clock me + 1) }

section Atomic

variable [DecidableEq ι]

def View.see (v : View ι) (l : ι) (i : Nat) : View ι :=
  { v with seen := Function.update v.seen l i }

-- A load returns any store that is not older than the newest one its thread has seen.
def Memory.load (m : Memory ι κ α β) (order : LoadOrder) (me : Nat) (l : ι) (i : Nat) :
    Option (α × Memory ι κ α β) :=
  if i < (m.view me).seen l then none
  else
    (m.history l)[i]?.map fun message =>
      let v := (m.view me).see l i
      (message.value, m.setView me (if order = .acquire then v.join message.view else v))

-- The message that a store adds. A release carries all that its thread knows.
def Memory.message (m : Memory ι κ α β) (order : StoreOrder) (me : Nat) (l : ι) (value : α) :
    Message ι α where
  value := value
  view := (if order = .release then m.view me else .nothing).see l (m.history l).length

def Memory.store (m : Memory ι κ α β) (order : StoreOrder) (me : Nat) (l : ι) (value : α) :
    Memory ι κ α β :=
  { m.setView me ((m.view me).see l (m.history l).length) with
    history := Function.update m.history l (m.history l ++ [m.message order me l value]) }

end Atomic

section Plain

variable [DecidableEq κ]

-- The access races with an earlier one: one of the two is a write, and the earlier one
-- did not happen before.
def Memory.races (m : Memory ι κ α β) (me : Nat) (k : κ) (kind : Kind) : Bool :=
  (m.accesses k).any fun a =>
    (kind = .write || a.kind = .write) && (m.view me).clock a.thread < a.time

def Memory.touch (m : Memory ι κ α β) (me : Nat) (k : κ) (kind : Kind) : Memory ι κ α β :=
  { m.setView me ((m.view me).tick me) with
    accesses := Function.update m.accesses k
      (m.accesses k ++ [⟨me, (m.view me).clock me + 1, kind⟩])
    raced := m.raced || m.races me k kind }

def Memory.readCell (m : Memory ι κ α β) (me : Nat) (k : κ) : β × Memory ι κ α β :=
  (m.cell k, m.touch me k .read)

def Memory.writeCell (m : Memory ι κ α β) (me : Nat) (k : κ) (value : β) : Memory ι κ α β :=
  { m.touch me k .write with cell := Function.update m.cell k value }

end Plain

end Operations

-- Nobody has stored or accessed anything yet.
def Memory.fresh (initial : ι → α) (cell : κ → β) : Memory ι κ α β where
  history l := [⟨initial l, .nothing⟩]
  cell := cell
  accesses _ := []
  view _ := .nothing
  raced := false

section Settled

-- All accesses to a cell so far happened before.
def Settled (m : Memory ι κ α β) (v : View ι) (k : κ) : Prop :=
  ∀ a ∈ m.accesses k, a.time ≤ v.clock a.thread

variable {m m' : Memory ι κ α β} {v w : View ι} {k : κ}

theorem Settled.mono (h : Settled m v k) (hacc : m'.accesses k = m.accesses k)
    (hclock : ∀ q, v.clock q ≤ w.clock q) : Settled m' w k := by
  intro a ha
  rw [hacc] at ha
  exact Nat.le_trans (h a ha) (hclock a.thread)

theorem clock_le_join_left (v w : View ι) (q : Nat) : v.clock q ≤ (v.join w).clock q :=
  Nat.le_max_left ..

theorem clock_le_join_right (v w : View ι) (q : Nat) : w.clock q ≤ (v.join w).clock q :=
  Nat.le_max_right ..

theorem clock_le_tick (v : View ι) (me q : Nat) : v.clock q ≤ (v.tick me).clock q := by
  by_cases hq : q = me
  · subst hq
    simp [View.tick]
  · simp [View.tick, hq]

-- Whoever knows of all accesses to a cell does not race on it.
theorem races_eq_false {me : Nat} (h : Settled m (m.view me) k) (kind : Kind) :
    m.races me k kind = false := by
  rw [Memory.races, List.any_eq_false]
  intro a ha
  have hle := h a ha
  simp only [Bool.and_eq_true, decide_eq_true_eq, not_and, Nat.not_lt]
  exact fun _ => hle

end Settled

section Views

variable {m : Memory ι κ α β} {me : Nat}

@[simp] theorem setView_view_self (v : View ι) : (m.setView me v).view me = v := by
  simp [Memory.setView]

@[simp] theorem setView_history (v : View ι) : (m.setView me v).history = m.history := rfl

@[simp] theorem setView_accesses (v : View ι) : (m.setView me v).accesses = m.accesses := rfl

theorem setView_view_of_ne (v : View ι) {q : Nat} (hq : q ≠ me) :
    (m.setView me v).view q = m.view q := by
  simp [Memory.setView, hq]

end Views

section Loads

variable [DecidableEq ι] {m m' : Memory ι κ α β} {me : Nat} {l : ι}

-- Everything a load can do.
theorem load_eq_some {order : LoadOrder} {i : Nat} {value : α}
    (h : m.load order me l i = some (value, m')) :
    ∃ message, (m.view me).seen l ≤ i ∧ (m.history l)[i]? = some message ∧
      value = message.value ∧
      m' = m.setView me (if order = .acquire then ((m.view me).see l i).join message.view
        else (m.view me).see l i) := by
  unfold Memory.load at h
  split at h
  · cases h
  · rename_i hseen
    obtain ⟨message, hmessage, heq⟩ := Option.map_eq_some_iff.mp h
    obtain ⟨rfl, rfl⟩ := Prod.mk.inj heq
    exact ⟨message, Nat.le_of_not_lt hseen, hmessage, rfl, rfl⟩

theorem load_history {order : LoadOrder} {i : Nat} {value : α}
    (h : m.load order me l i = some (value, m')) : m'.history = m.history := by
  obtain ⟨message, -, -, -, rfl⟩ := load_eq_some h
  rfl

end Loads

section Accesses

variable [DecidableEq κ] {m : Memory ι κ α β} {me : Nat} {k : κ}

theorem touch_raced (hclean : m.raced = false) (h : Settled m (m.view me) k) (kind : Kind) :
    (m.touch me k kind).raced = false := by
  simp [Memory.touch, hclean, races_eq_false h kind]

theorem touch_accesses_of_ne {other : κ} (hk : other ≠ k) (kind : Kind) :
    (m.touch me k kind).accesses other = m.accesses other := by
  simp [Memory.touch, hk]

theorem touch_view_self (kind : Kind) : (m.touch me k kind).view me = (m.view me).tick me := by
  simp [Memory.touch, Memory.setView]

theorem touch_view_of_ne {q : Nat} (hq : q ≠ me) (kind : Kind) :
    (m.touch me k kind).view q = m.view q := by
  simp [Memory.touch, Memory.setView, hq]

-- One's own accesses are known to oneself.
theorem Settled.touch_self (h : Settled m (m.view me) k) (kind : Kind) :
    Settled (m.touch me k kind) ((m.touch me k kind).view me) k := by
  intro a ha
  rw [touch_view_self]
  have hmem : a ∈ m.accesses k ++ [⟨me, (m.view me).clock me + 1, kind⟩] := by
    simpa [Memory.touch] using ha
  rcases List.mem_append.mp hmem with hold | hnew
  · exact Nat.le_trans (h a hold) (clock_le_tick _ me _)
  · rw [List.mem_singleton.mp hnew]
    simp [View.tick]

end Accesses

section Valid

-- No view speaks of a store that has not been made.
structure Memory.Valid (m : Memory ι κ α β) : Prop where
  view : ∀ q l, (m.view q).seen l < (m.history l).length
  message : ∀ l, ∀ message ∈ m.history l, ∀ l', message.view.seen l' < (m.history l').length

variable {m m' : Memory ι κ α β} {me : Nat}

theorem fresh_valid (initial : ι → α) (cell : κ → β) : (Memory.fresh initial cell).Valid where
  view _ _ := Nat.zero_lt_one
  message l message hmem l' := by
    rw [List.mem_singleton.mp hmem]
    exact Nat.zero_lt_one

theorem Memory.Valid.setView (h : m.Valid) {v : View ι}
    (hv : ∀ l, v.seen l < (m.history l).length) : (m.setView me v).Valid where
  view q l := by
    by_cases hq : q = me
    · subst hq
      rw [setView_view_self]
      exact hv l
    · rw [setView_view_of_ne v hq]
      exact h.view q l
  message := h.message

theorem Memory.Valid.touch [DecidableEq κ] (h : m.Valid) (k : κ) (kind : Kind) :
    (m.touch me k kind).Valid where
  view := (h.setView (v := (m.view me).tick me) (h.view me)).view
  message := h.message

theorem Memory.Valid.writeCell [DecidableEq κ] (h : m.Valid) (k : κ) (value : β) :
    (m.writeCell me k value).Valid :=
  have ht := h.touch k .write
  ⟨ht.view, ht.message⟩

variable [DecidableEq ι]

theorem see_seen_lt {v : View ι} {l : ι} {i : Nat} {bound : ι → Nat}
    (hv : ∀ l, v.seen l < bound l) (hi : i < bound l) (l' : ι) :
    (v.see l i).seen l' < bound l' := by
  by_cases hl : l' = l
  · subst hl
    simpa [View.see] using hi
  · simpa [View.see, hl] using hv l'

theorem Memory.Valid.load (h : m.Valid) {order : LoadOrder} {l : ι} {i : Nat} {value : α}
    (hload : m.load order me l i = some (value, m')) : m'.Valid := by
  obtain ⟨message, -, hmessage, -, rfl⟩ := load_eq_some hload
  have hlt := (List.getElem?_eq_some_iff.mp hmessage).1
  have hsee := see_seen_lt (h.view me) hlt
  apply h.setView
  intro l'
  split
  · exact Nat.max_lt.mpr ⟨hsee l', h.message l message (List.mem_of_getElem? hmessage) l'⟩
  · exact hsee l'

theorem store_history_self (order : StoreOrder) (l : ι) (value : α) :
    (m.store order me l value).history l = m.history l ++ [m.message order me l value] := by
  simp [Memory.store]

theorem store_history_of_ne (order : StoreOrder) {l l' : ι} (value : α) (hl : l' ≠ l) :
    (m.store order me l value).history l' = m.history l' := by
  simp [Memory.store, hl]

theorem store_view_self (order : StoreOrder) (l : ι) (value : α) :
    (m.store order me l value).view me = (m.view me).see l (m.history l).length := by
  simp [Memory.store, Memory.setView]

theorem store_view_of_ne (order : StoreOrder) (l : ι) (value : α) {q : Nat} (hq : q ≠ me) :
    (m.store order me l value).view q = m.view q := by
  simp [Memory.store, Memory.setView, hq]

-- A store makes the history of its location longer and leaves the others.
theorem length_store_history (order : StoreOrder) (l l' : ι) (value : α) :
    ((m.store order me l value).history l').length =
      if l' = l then (m.history l).length + 1 else (m.history l').length := by
  by_cases hl : l' = l
  · subst hl
    rw [store_history_self, List.length_append, if_pos rfl, List.length_singleton]
  · rw [store_history_of_ne order value hl, if_neg hl]

theorem length_le_store (order : StoreOrder) (l l' : ι) (value : α) :
    (m.history l').length ≤ ((m.store order me l value).history l').length := by
  rw [length_store_history]
  split
  · rename_i hl
    subst hl
    exact Nat.le_succ _
  · exact Nat.le_refl _

theorem Memory.Valid.store (h : m.Valid) (order : StoreOrder) (l : ι) (value : α) :
    (m.store order me l value).Valid := by
  have hold (v : View ι) (hv : ∀ l', v.seen l' < (m.history l').length) (l' : ι) :
      v.seen l' < ((m.store order me l value).history l').length :=
    Nat.lt_of_lt_of_le (hv l') (length_le_store order l l' value)
  have hnew (v : View ι) (hv : ∀ l', v.seen l' < (m.history l').length) :
      ∀ l', (v.see l (m.history l).length).seen l' <
        ((m.store order me l value).history l').length := by
    refine see_seen_lt (hold v hv) ?_
    rw [length_store_history, if_pos rfl]
    exact Nat.lt_succ_self _
  constructor
  · intro q l'
    by_cases hq : q = me
    · subst hq
      rw [store_view_self]
      exact hnew _ (h.view q) l'
    · rw [store_view_of_ne order l value hq]
      exact hold _ (h.view q) l'
  · intro l' message hmem
    by_cases hl : l' = l
    · subst hl
      rw [store_history_self] at hmem
      rcases List.mem_append.mp hmem with hmem | hmem
      · exact hold _ (h.message l' message hmem)
      · rw [List.mem_singleton.mp hmem]
        apply hnew
        intro l
        split
        · exact h.view me l
        · exact Nat.zero_lt_of_lt (h.view me l)
    · rw [store_history_of_ne order value hl] at hmem
      exact hold _ (h.message l' message hmem)

-- A load may always return the newest store.
theorem load_newest (h : m.Valid) (order : LoadOrder) (me : Nat) (l : ι) :
    ∃ message m', (m.history l).getLast? = some message ∧
      m.load order me l ((m.history l).length - 1) = some (message.value, m') := by
  have hlt := h.view me l
  have hbound : (m.history l).length - 1 < (m.history l).length := by omega
  have hget := List.getElem?_eq_getElem hbound
  have hload : (m.load order me l ((m.history l).length - 1)).map Prod.fst =
      some (m.history l)[(m.history l).length - 1].value := by
    rw [Memory.load, if_neg (by omega), hget]
    rfl
  obtain ⟨⟨value, m'⟩, hm', rfl⟩ := Option.map_eq_some_iff.mp hload
  exact ⟨_, m', List.getLast?_eq_getElem?.trans hget, hm'⟩

end Valid

end ReleaseAcquire
