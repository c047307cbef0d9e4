import Kbuf.Lib.CounterPair
import Kbuf.Spsc.Delivery

namespace Kbuf

open Interleaving CounterPair

section Definitions

-- How far a write has come in counting the message it has published.
def SpscWritePc.phase : SpscWritePc → Phase 64
  | .bytesLoad _ => .recorded
  | .bytesStore _ bytes => .addTotal bytes
  | .msgsLoad _ => .between
  | .msgsStore _ msgs => .addCount msgs
  | .occ _ | .peak _ | .peakStore _ | .wake => .counted
  | _ => .rest

def SpscReadPc.phase : SpscReadPc → Phase 64
  | .bytesLoad _ => .recorded
  | .bytesStore _ bytes => .addTotal bytes
  | .msgsLoad _ => .between
  | .msgsStore _ msgs => .addCount msgs
  | .trace _ | .wake _ => .counted
  | _ => .rest

def Local.producePhase : Local → Phase 64
  | .writeSpsc _ _ pc => pc.phase
  | _ => .rest

def Local.consumePhase : Local → Phase 64
  | .readSpsc _ _ pc => pc.phase
  | _ => .rest

-- The message that a write is about to count is the last one accepted.
def Local.ProducedLast (items : List Nat) : Local → Prop
  | .writeSpsc _ u (.setLen _) | .writeSpsc _ u (.publish _) => u.count ≤ u.ubuf.length
  | .writeSpsc _ u (.bytesLoad _) | .writeSpsc _ u (.bytesStore ..) =>
      items.getLast? = some u.count
  | _ => True

-- The message that a read is about to count is the last one delivered.
def Local.ConsumedLast (items : List Nat) : Local → Prop
  | .readSpsc _ _ (.bytesLoad f) | .readSpsc _ _ (.bytesStore f _) => items.getLast? = some f.len
  | _ => True

def Local.produced : Local → Bool
  | .done (.size (.ok _)) => true
  | _ => false

def Local.consumed : Local → Bool
  | .done (.bytes (.ok _) _) => true
  | _ => false

-- A RESET that has made its store number `first` and not yet its store number `last`.
def Local.clearing (first last : Nat) : Local → Bool
  | .reset (.store field) => first < field && field ≤ last
  | _ => false

-- One side of the ring: its user and what that user knows of the messages so far,
-- the two counters, and the numbers of the stores by which a RESET clears them.
structure Side where
  phase : Local → Phase 64
  knows : List Nat → Local → Prop
  returned : Local → Bool
  items : World → List Nat
  total : Dev → BitVec 64
  count : Dev → BitVec 64
  first : Nat
  last : Nat

def produceSide : Side where
  phase := Local.producePhase
  knows := Local.ProducedLast
  returned := Local.produced
  items w := w.sent.map List.length
  total := Dev.bytesProduced
  count := Dev.msgsProduced
  first := 0
  last := 2

def consumeSide : Side where
  phase := Local.consumePhase
  knows := Local.ConsumedLast
  returned := Local.consumed
  items w := w.received.map fun got => got.2.length
  total := Dev.bytesConsumed
  count := Dev.msgsConsumed
  first := 1
  last := 3

-- The counters of a side as its only user `p` and the RESETs see them.
def Side.gauge (side : Side) (p : Nat) (s : System) : Gauge 64 where
  items := side.items s.shared
  total := side.total s.shared.dev
  count := side.count s.shared.dev
  phase := side.phase (s.locals p)
  clearing := ∃ q, (s.locals q).clearing side.first side.last = true

-- The stores of a RESET to the two counters of a side, and the update of these
-- counters by a transfer, keep out of each other's way.
structure Side.Apart (side : Side) (s : System) (act : Act Choice) : Prop where
  total : s.locals act.pid = .reset (.store side.first) →
    ∀ q, (side.phase (s.locals q)).settled = true
  count : s.locals act.pid = .reset (.store side.last) →
    ∀ q seen, side.phase (s.locals q) ≠ .addCount seen
  transfer : ∀ seen, side.phase (s.locals act.pid) = .addCount seen →
    ∀ q, (s.locals q).clearing side.first side.last = false

-- What a side has to do with a RESET.
structure Side.Lawful (side : Side) : Prop where
  order : side.first < side.last
  last_lt : side.last < 6
  items_reset : ∀ w dev, side.items { w with dev := dev } = side.items w
  total_reset : ∀ dev field, side.total (resetStore dev field) =
    if field = side.first then 0 else side.total dev
  count_reset : ∀ dev field, side.count (resetStore dev field) =
    if field = side.last then 0 else side.count dev
  phase_reset : ∀ pc, side.phase (.reset pc) = .rest
  knows_reset : ∀ items pc, side.knows items (.reset pc)
  returned_reset : ∀ pc, side.returned (.reset pc) = false

-- A step of `pid` as a side with the only user `p` sees it.
structure Side.Moved (side : Side) (p : Nat) (s : System) (pid : Nat) (t : System) : Prop where
  step : Gauge.Step (side.gauge p s) (side.gauge p t)
  knows : side.knows (side.items t.shared) (t.locals p)
  returned : side.returned (t.locals pid) = true ↔
    (side.gauge p s).phase = .counted ∧ (side.gauge p t).phase = .rest

end Definitions

section Lawful

theorem produceSide_lawful : produceSide.Lawful where
  order := by decide
  last_lt := by decide
  items_reset _ _ := rfl
  total_reset dev field := by
    unfold resetStore produceSide
    split <;> simp_all
  count_reset dev field := by
    unfold resetStore produceSide
    split <;> simp_all
  phase_reset _ := rfl
  knows_reset _ _ := trivial
  returned_reset _ := rfl

theorem consumeSide_lawful : consumeSide.Lawful where
  order := by decide
  last_lt := by decide
  items_reset _ _ := rfl
  total_reset dev field := by
    unfold resetStore consumeSide
    split <;> simp_all
  count_reset dev field := by
    unfold resetStore consumeSide
    split <;> simp_all
  phase_reset _ := rfl
  knows_reset _ _ := trivial
  returned_reset _ := rfl

end Lawful

section Gauge

variable {side : Side} {p pid : Nat} {s : System} {w : World} {next : Local}

theorem clearing_put {first last : Nat}
    (h : next.clearing first last = (s.locals pid).clearing first last) :
    (∃ q, ((s.put pid (w, next)).locals q).clearing first last = true) ↔
      ∃ q, (s.locals q).clearing first last = true := by
  have hsame (q : Nat) : ((s.put pid (w, next)).locals q).clearing first last =
      (s.locals q).clearing first last := by
    by_cases hq : q = pid
    · subst hq
      rw [State.put_locals_self]
      exact h
    · rw [State.put_locals_of_ne _ _ hq]
  simp only [hsame]

theorem phase_put (hphase : side.phase next = side.phase (s.locals pid)) :
    side.phase ((s.put pid (w, next)).locals p) = side.phase (s.locals p) := by
  by_cases hp : p = pid
  · subst hp
    rw [State.put_locals_self]
    exact hphase
  · rw [State.put_locals_of_ne _ _ hp]

theorem knows_put {items : List Nat} (hitems : side.items w = items)
    (hnext : side.knows items next) (hp : side.knows items (s.locals p)) :
    side.knows (side.items w) ((s.put pid (w, next)).locals p) := by
  rw [hitems]
  by_cases hpid : p = pid
  · subst hpid
    rw [State.put_locals_self]
    exact hnext
  · rw [State.put_locals_of_ne _ _ hpid]
    exact hp

-- A step that does not change the phase is not the last one of a transfer.
theorem Side.not_last (hphase : side.phase next = side.phase (s.locals pid))
    (hreturned : side.returned next = false) :
    side.returned ((s.put pid (w, next)).locals pid) = true ↔
      (side.gauge p s).phase = .counted ∧ (side.gauge p (s.put pid (w, next))).phase = .rest := by
  refine iff_of_false ?_ fun h => ?_
  · rw [State.put_locals_self, hreturned]
    exact Bool.false_ne_true
  · have hsame : (side.gauge p (s.put pid (w, next))).phase = (side.gauge p s).phase :=
      phase_put hphase
    exact absurd (h.1.symm.trans (hsame.symm.trans h.2)) nofun

theorem Side.gauge_put (hitems : side.items w = side.items s.shared)
    (htotal : side.total w.dev = side.total s.shared.dev)
    (hcount : side.count w.dev = side.count s.shared.dev)
    (hphase : side.phase next = side.phase (s.locals pid))
    (hclear : next.clearing side.first side.last = (s.locals pid).clearing side.first side.last) :
    side.gauge p (s.put pid (w, next)) = side.gauge p s :=
  Gauge.ext hitems htotal hcount (phase_put hphase) (propext (clearing_put hclear))

-- A step that touches neither the counters of a side nor where anybody is in them.
theorem Side.stay (hknows : side.knows (side.items s.shared) (s.locals p)) {here : Local}
    (hhere : s.locals pid = here) (hitems : side.items w = side.items s.shared)
    (htotal : side.total w.dev = side.total s.shared.dev)
    (hcount : side.count w.dev = side.count s.shared.dev)
    (hphase : side.phase next = side.phase here)
    (hclear : next.clearing side.first side.last = here.clearing side.first side.last)
    (hnext : side.knows (side.items s.shared) next) (hreturned : side.returned next = false) :
    side.Moved p s pid (s.put pid (w, next)) := by
  subst hhere
  refine ⟨?_, knows_put hitems hnext hknows, Side.not_last hphase hreturned⟩
  rw [Side.gauge_put hitems htotal hcount hphase hclear]
  exact .stay

-- A step of the side's own user that leads the counters to `g`.
theorem Side.enters {g : Gauge 64} (hstep : Gauge.Step (side.gauge pid s) g)
    (hitems : side.items w = g.items) (htotal : side.total w.dev = g.total)
    (hcount : side.count w.dev = g.count) (hphase : side.phase next = g.phase)
    (hclear : next.clearing side.first side.last = (s.locals pid).clearing side.first side.last)
    (hg : g.clearing = (side.gauge pid s).clearing) (hnext : side.knows g.items next)
    (hreturned : side.returned next = true ↔
      (side.gauge pid s).phase = .counted ∧ g.phase = .rest) :
    side.Moved pid s pid (s.put pid (w, next)) := by
  have hlocal : (s.put pid (w, next)).locals pid = next := State.put_locals_self ..
  have hgauge : side.gauge pid (s.put pid (w, next)) = g := by
    refine Gauge.ext hitems htotal hcount ?_ ((propext (clearing_put hclear)).trans hg.symm)
    rw [← hphase]
    exact congrArg side.phase hlocal
  refine ⟨hgauge ▸ hstep, ?_, ?_⟩
  · rw [hlocal]
    exact hitems ▸ hnext
  · rw [hlocal, hgauge]
    exact hreturned

theorem Local.holds_of_clearing {here : Local} {first last : Nat}
    (h : here.clearing first last = true) : here.holds = true := by
  unfold Local.clearing at h
  split at h
  · rfl
  · cases h

-- The state after a store of a RESET.
def resetStored (s : System) (pid field : Nat) : System :=
  s.put pid ({ s.shared with dev := resetStore s.shared.dev field },
    .reset (if field < 6 then .store (field + 1) else .unlock))

theorem clearing_stored {field first last : Nat} (hlast : last < 6) :
    (Local.reset (if field < 6 then .store (field + 1) else .unlock)).clearing first last = true ↔
      first ≤ field ∧ field < last := by
  by_cases hlt : field < 6
  · rw [if_pos hlt]
    simp only [Local.clearing, Bool.and_eq_true, decide_eq_true_eq]
    omega
  · rw [if_neg hlt]
    simp only [Local.clearing, Bool.false_eq_true, false_iff]
    omega

theorem phase_stored (hl : side.Lawful) {field : Nat}
    (hhere : s.locals pid = .reset (.store field)) :
    side.phase (.reset (if field < 6 then .store (field + 1) else .unlock)) =
      side.phase (s.locals pid) := by
  rw [hhere, hl.phase_reset, hl.phase_reset]

theorem Side.gauge_first (hl : side.Lawful)
    (hhere : s.locals pid = .reset (.store side.first)) :
    side.gauge p (resetStored s pid side.first) =
      { side.gauge p s with total := 0, clearing := True } := by
  have horder := hl.order
  refine Gauge.ext (hl.items_reset _ _) ?_ ?_ (phase_put (phase_stored hl hhere)) (propext ?_)
  · exact (hl.total_reset _ _).trans (if_pos rfl)
  · exact (hl.count_reset _ _).trans (if_neg (by omega))
  · refine iff_true_intro ⟨pid, ?_⟩
    rw [resetStored, State.put_locals_self]
    exact (clearing_stored hl.last_lt).mpr ⟨Nat.le_refl _, horder⟩

theorem Side.gauge_last (hl : side.Lawful) (hlock : LockInv s)
    (hhere : s.locals pid = .reset (.store side.last)) :
    side.gauge p (resetStored s pid side.last) =
      { side.gauge p s with count := 0, clearing := False } := by
  have horder := hl.order
  refine Gauge.ext (hl.items_reset _ _) ?_ ?_ (phase_put (phase_stored hl hhere)) (propext ?_)
  · exact (hl.total_reset _ _).trans (if_neg (by omega))
  · exact (hl.count_reset _ _).trans (if_pos rfl)
  · -- Nobody else is clearing: that would take the lock twice.
    refine iff_false_intro fun ⟨q, hq⟩ => ?_
    by_cases hpid : q = pid
    · subst hpid
      rw [resetStored, State.put_locals_self] at hq
      have := (clearing_stored hl.last_lt).mp hq
      omega
    · rw [resetStored, State.put_locals_of_ne _ _ hpid] at hq
      have hholds : (s.locals pid).holds = true := by rw [hhere]; rfl
      exact hpid (hlock.eq_of_holds (Local.holds_of_clearing hq) hholds)

theorem Side.gauge_other (hl : side.Lawful) {field : Nat} (hfirst : field ≠ side.first)
    (hlast : field ≠ side.last) (hhere : s.locals pid = .reset (.store field)) :
    side.gauge p (resetStored s pid field) = side.gauge p s := by
  have hclear : (Local.reset (if field < 6 then .store (field + 1) else .unlock)).clearing
      side.first side.last = (s.locals pid).clearing side.first side.last := by
    rw [hhere, Bool.eq_iff_iff, clearing_stored hl.last_lt]
    simp only [Local.clearing, Bool.and_eq_true, decide_eq_true_eq]
    omega
  exact Side.gauge_put (hl.items_reset _ _) ((hl.total_reset _ _).trans (if_neg hfirst))
    ((hl.count_reset _ _).trans (if_neg hlast)) (phase_stored hl hhere) hclear

theorem Side.clearing_last (hl : side.Lawful)
    (hhere : s.locals pid = .reset (.store side.last)) : (side.gauge p s).clearing := by
  have horder := hl.order
  refine ⟨pid, ?_⟩
  rw [hhere]
  simp only [Local.clearing, Bool.and_eq_true, decide_eq_true_eq]
  omega

-- The store of a RESET that clears the total, the one that clears the count, and
-- the others.
theorem Side.reset_store (hl : side.Lawful) (hlock : LockInv s) {field : Nat} {choice : Choice}
    (hknows : side.knows (side.items s.shared) (s.locals p))
    (hhere : s.locals pid = .reset (.store field)) (hapart : side.Apart s ⟨pid, choice⟩) :
    side.Moved p s pid (resetStored s pid field) where
  step := by
    by_cases hfirst : field = side.first
    · subst hfirst
      rw [Side.gauge_first hl hhere]
      exact .clearTotal (hapart.total hhere p)
    · by_cases hlast : field = side.last
      · subst hlast
        rw [Side.gauge_last hl hlock hhere]
        exact .clearCount (hapart.count hhere p) (Side.clearing_last hl hhere)
      · rw [Side.gauge_other hl hfirst hlast hhere]
        exact .stay
  knows := knows_put (hl.items_reset _ _) (hl.knows_reset _ _) hknows
  returned := Side.not_last (phase_stored hl hhere) (hl.returned_reset _)

end Gauge

end Kbuf
