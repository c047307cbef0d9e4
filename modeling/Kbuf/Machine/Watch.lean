import Kbuf.Machine.Moves

namespace Kbuf

open Interleaving

section Model

-- The callers of kbuf_occupancy other than KBUF_IOCGSTATS. Of a RESIZE and an
-- SMODE only the test of the occupancy is modelled here.
inductive Caller where
  | procShow
  | resize
  | smode
  deriving DecidableEq, Repr

-- kbuf_occupancy. In SPSC mode it loads the two indices one after the other.
inductive OccPc where
  | enter
  | cons (prod : BitVec 32)
  deriving DecidableEq, Repr

-- What kbuf_proc_show_dev prints for a device.
structure Status where
  totalSlots : Nat
  slotSize : Nat
  fullSlots : BitVec 32
  freeSlots : BitVec 32
  peakFullSlots : Nat
  readPosition : Nat
  writePosition : Nat
  mode : Mode
  msgsProduced : BitVec 64
  msgsConsumed : BitVec 64
  bytesProduced : BitVec 64
  bytesConsumed : BitVec 64
  readerSleeps : BitVec 64
  writerSleeps : BitVec 64
  deriving DecidableEq, Repr

def procStatus (dev : Dev) (occ : BitVec 32) : Status where
  totalSlots := dev.numBuffers
  slotSize := dev.bufferSize
  fullSlots := occ
  freeSlots := BitVec.ofNat 32 dev.numBuffers - occ
  peakFullSlots := dev.peakCount
  readPosition :=
    match dev.mode with
    | .SPSC => dev.masked dev.consIdx
    | .BLOCKING => dev.readPos
  writePosition :=
    match dev.mode with
    | .SPSC => dev.masked dev.prodIdx
    | .BLOCKING => dev.writePos
  mode := dev.mode
  msgsProduced := dev.msgsProduced
  msgsConsumed := dev.msgsConsumed
  bytesProduced := dev.bytesProduced
  bytesConsumed := dev.bytesConsumed
  readerSleeps := dev.readSleeps
  writerSleeps := dev.writeSleeps

inductive Answer where
  | status (value : Status)
  | depth (occ : BitVec 32)
  deriving DecidableEq, Repr

inductive Watch where
  | lock (caller : Caller)
  | occ (caller : Caller) (pc : OccPc)
  | got (caller : Caller) (occ : BitVec 32)
  | unlock (answer : Answer)
  | returned (answer : Answer)
  deriving DecidableEq, Repr

-- What the caller makes of the occupancy while it holds the lock.
def Caller.answer (caller : Caller) (dev : Dev) (occ : BitVec 32) : Answer :=
  match caller with
  | .procShow => .status (procStatus dev occ)
  | .resize | .smode => .depth occ

def watchStep (me : Nat) (w : World) : Watch → Option (World × Watch)
  | .lock caller => (w.acquire me).map (·, .occ caller .enter)
  | .occ caller .enter =>
      match w.dev.mode with
      | .SPSC => some (w, .occ caller (.cons w.dev.prodIdx))
      | .BLOCKING => some (w, .got caller (BitVec.ofInt 32 w.dev.count))
  | .occ caller (.cons prod) => some (w, .got caller (prod - w.dev.consIdx))
  | .got caller occ => some (w, .unlock (caller.answer w.dev occ))
  | .unlock answer => some (w.release, .returned answer)
  | .returned _ => none

inductive WatchChoice where
  | call (choice : Choice)
  | watch (caller : Caller)

-- Processes that use the device and processes that watch it.
def watched : Program World (Local ⊕ Watch) WatchChoice := fun me choice here w =>
  match here, choice with
  | .inl here, .call choice => (driver me choice here w).map (Prod.map id .inl)
  | .inl .idle, .watch caller => some (w, .inr (.lock caller))
  | .inl (.done _), .watch caller => some (w, .inr (.lock caller))
  | .inr (.returned _), .call (.start request) => some (w, .inl request.enter)
  | .inr (.returned _), .watch caller => some (w, .inr (.lock caller))
  | .inr pc, .call .go => (watchStep me w pc).map (Prod.map id .inr)
  | _, _ => none

abbrev WatchedSystem := State World (Local ⊕ Watch)

def watchedBoot (dev : Dev) : WatchedSystem where
  shared := (boot dev).shared
  locals := fun _ => .inl .idle

end Model

section Moves

inductive WatchMove (me : Nat) (w : World) : Watch → World → Watch → Prop
  | lock {caller : Caller} (h : w.lock = none) :
      WatchMove me w (.lock caller) { w with lock := some me } (.occ caller .enter)
  | loadSpsc {caller : Caller} (h : w.dev.mode = .SPSC) :
      WatchMove me w (.occ caller .enter) w (.occ caller (.cons w.dev.prodIdx))
  | loadBlocking {caller : Caller} (h : w.dev.mode = .BLOCKING) :
      WatchMove me w (.occ caller .enter) w (.got caller (BitVec.ofInt 32 w.dev.count))
  | cons {caller : Caller} {prod : BitVec 32} :
      WatchMove me w (.occ caller (.cons prod)) w (.got caller (prod - w.dev.consIdx))
  | got {caller : Caller} {occ : BitVec 32} :
      WatchMove me w (.got caller occ) w (.unlock (caller.answer w.dev occ))
  | unlock {answer : Answer} : WatchMove me w (.unlock answer) w.release (.returned answer)

theorem watchStep_move {me : Nat} {w w' : World} {pc next : Watch}
    (h : watchStep me w pc = some (w', next)) : WatchMove me w pc w' next := by
  cases pc with
  | lock caller =>
      obtain ⟨v, hv, hnext⟩ := Option.map_eq_some_iff.mp h
      obtain ⟨hl, rfl⟩ := acquire_eq_some hv
      obtain ⟨rfl, rfl⟩ := Prod.mk.inj hnext
      exact .lock hl
  | occ caller pc =>
      cases pc with
      | enter =>
          simp only [watchStep] at h
          split at h
          · obtain ⟨rfl, rfl⟩ := Prod.mk.inj (Option.some.inj h)
            exact .loadSpsc ‹_›
          · obtain ⟨rfl, rfl⟩ := Prod.mk.inj (Option.some.inj h)
            exact .loadBlocking ‹_›
      | cons prod =>
          obtain ⟨rfl, rfl⟩ := Prod.mk.inj (Option.some.inj h)
          exact .cons
  | got caller occ =>
      obtain ⟨rfl, rfl⟩ := Prod.mk.inj (Option.some.inj h)
      exact .got
  | unlock answer =>
      obtain ⟨rfl, rfl⟩ := Prod.mk.inj (Option.some.inj h)
      exact .unlock
  | returned answer => cases h

-- Watching takes and drops the lock and changes nothing else.
theorem WatchMove.world {me : Nat} {w w' : World} {pc next : Watch}
    (h : WatchMove me w pc w' next) : ∃ lock, w' = { w with lock := lock } := by
  cases h with
  | lock => exact ⟨some me, rfl⟩
  | unlock => exact ⟨none, rfl⟩
  | loadSpsc | loadBlocking | cons | got => exact ⟨w.lock, rfl⟩

-- A step of the driver, or a step of a process that watches.
inductive WatchedMove (me : Nat) (w : World) :
    WatchChoice → Local ⊕ Watch → World → Local ⊕ Watch → Prop
  | call {choice : Choice} {here next : Local} {w' : World}
      (h : driver me choice here w = some (w', next)) :
      WatchedMove me w (.call choice) (.inl here) w' (.inl next)
  | enter {answer : Answer} {request : Request} :
      WatchedMove me w (.call (.start request)) (.inr (.returned answer)) w (.inl request.enter)
  | watch {here : Local ⊕ Watch} {caller : Caller} :
      WatchedMove me w (.watch caller) here w (.inr (.lock caller))
  | go {pc next : Watch} {w' : World} (h : WatchMove me w pc w' next) :
      WatchedMove me w (.call .go) (.inr pc) w' (.inr next)

theorem watched_move {me : Nat} {w w' : World} {choice : WatchChoice} {here next : Local ⊕ Watch}
    (h : watched me choice here w = some (w', next)) : WatchedMove me w choice here w' next := by
  unfold watched at h
  split at h
  · obtain ⟨⟨v, after⟩, hv, hnext⟩ := Option.map_eq_some_iff.mp h
    obtain ⟨rfl, rfl⟩ := Prod.mk.inj hnext
    exact .call hv
  · obtain ⟨rfl, rfl⟩ := Prod.mk.inj (Option.some.inj h)
    exact .watch
  · obtain ⟨rfl, rfl⟩ := Prod.mk.inj (Option.some.inj h)
    exact .watch
  · obtain ⟨rfl, rfl⟩ := Prod.mk.inj (Option.some.inj h)
    exact .enter
  · obtain ⟨rfl, rfl⟩ := Prod.mk.inj (Option.some.inj h)
    exact .watch
  · obtain ⟨⟨v, after⟩, hv, hnext⟩ := Option.map_eq_some_iff.mp h
    obtain ⟨rfl, rfl⟩ := Prod.mk.inj hnext
    exact .go (watchStep_move hv)
  · cases h

theorem watched_step_move {s t : WatchedSystem} {act : Act WatchChoice}
    (h : step watched s act = some t) :
    ∃ w here, WatchedMove act.pid s.shared act.choice (s.locals act.pid) w here ∧
      t = s.put act.pid (w, here) := by
  obtain ⟨⟨w, here⟩, hp, rfl⟩ := step_eq_some h
  exact ⟨w, here, watched_move hp, rfl⟩

end Moves

section Core

-- The driver's side of a process: a watching process is outside the driver.
def core : Local ⊕ Watch → Local
  | .inl here => here
  | .inr _ => .idle

def coreOf (s : WatchedSystem) : System where
  shared := s.shared
  locals := fun p => core (s.locals p)

theorem coreOf_put (s : WatchedSystem) (p : Nat) (w : World) (here : Local ⊕ Watch) :
    coreOf (s.put p (w, here)) = (coreOf s).put p (w, core here) :=
  State.map_put id core s p (w, here)

-- Seen from the driver, a step of the watched system is a step of the driver, or
-- a process outside it takes or drops the lock.
theorem coreOf_step {s t : WatchedSystem} {act : Act WatchChoice}
    (h : step watched s act = some t) :
    (∃ choice, act.choice = .call choice ∧
      step driver (coreOf s) ⟨act.pid, choice⟩ = some (coreOf t)) ∨
    ∃ lock, coreOf t = (coreOf s).put act.pid ({ s.shared with lock := lock }, .idle) := by
  obtain ⟨w, here, hmove, rfl⟩ := watched_step_move h
  rw [coreOf_put]
  have hcore : (coreOf s).locals act.pid = core (s.locals act.pid) := rfl
  generalize hloc : s.locals act.pid = there at hmove hcore
  generalize act.choice = chosen at hmove
  cases hmove with
  | @call choice before after v hd =>
      refine Or.inl ⟨choice, rfl, ?_⟩
      rw [step, hcore]
      exact Option.map_eq_some_iff.mpr ⟨_, hd, rfl⟩
  | @enter answer request =>
      refine Or.inl ⟨.start request, rfl, ?_⟩
      rw [step, hcore]
      rfl
  | watch => exact Or.inr ⟨s.shared.lock, rfl⟩
  | go hw =>
      obtain ⟨lock, rfl⟩ := hw.world
      exact Or.inr ⟨lock, rfl⟩

end Core

end Kbuf
