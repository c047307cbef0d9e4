import Kbuf.Wakeup

namespace Kbuf

open Interleaving

section Model

-- A process in poll(2): kbuf_poll queues it on both wait queues and tests the ring, the
-- caller of kbuf_poll puts it to sleep if nothing it asked for is ready.
inductive PollerPc where
  | queueRead
  | queueWrite
  | sample
  | empty
  | emptyCons (prod : BitVec 32)
  | full (isEmpty : Bool)
  | fullCons (isEmpty : Bool) (prod : BitVec 32)
  | lock
  | test
  | unlock (isEmpty isFull : Bool)
  | check (isEmpty isFull : Bool)
  | asleep (isEmpty isFull : Bool)
  | leaveRead (mask : BitVec 32)
  | leaveWrite (mask : BitVec 32)
  | returned (mask : BitVec 32)
  deriving DecidableEq

structure Poller where
  events : BitVec 32
  pc : PollerPc
  deriving DecidableEq

-- The entries of a poller stay queued; a wakeup marks them by taking them off the list, and
-- the poller clears the mark before it polls again.
def World.rearm (w : World) (me : Nat) : World := (w.enqueue .read me).enqueue .write me

-- kbuf_poll, with the loads of kbuf_spsc_is_empty and kbuf_spsc_is_full one by one, inside
-- the loop of its caller. A signal and the end of the timeout both end the wait.
def pollerStep (events : BitVec 32) (me : Nat) (w : World) :
    PollerPc → Choice → Option (World × PollerPc)
  | .queueRead, .go => some (w.enqueue .read me, .queueWrite)
  | .queueWrite, .go => some (w.enqueue .write me, .sample)
  | .sample, .go =>
      match w.dev.mode with
      | .SPSC => some (w, .empty)
      | .BLOCKING => some (w, .lock)
  | .empty, .go => some (w, .emptyCons w.dev.prodIdx)
  | .emptyCons prod, .go => some (w, .full (prod = w.dev.consIdx))
  | .full isEmpty, .go => some (w, .fullCons isEmpty w.dev.prodIdx)
  | .fullCons isEmpty prod, .go =>
      some (w, .check isEmpty (w.dev.numBuffers ≤ (prod - w.dev.consIdx).toNat))
  | .lock, .go => (w.acquire me).map (·, .test)
  | .test, .go => some (w, .unlock (ringIsEmpty w.dev) (ringIsFull w.dev))
  | .unlock isEmpty isFull, .go => some (w.release, .check isEmpty isFull)
  | .check isEmpty isFull, .go =>
      if pollMask isEmpty isFull &&& events = 0 then some (w, .asleep isEmpty isFull)
      else some (w, .leaveRead (pollMask isEmpty isFull &&& events))
  | .asleep .., .go =>
      if me ∈ w.waiters .read ∧ me ∈ w.waiters .write then none else some (w.rearm me, .sample)
  | .asleep .., .spurious => some (w.rearm me, .sample)
  | .asleep .., .signal => some (w, .leaveRead 0)
  | .leaveRead mask, .go => some (w.dequeue .read me, .leaveWrite mask)
  | .leaveWrite mask, .go => some (w.dequeue .write me, .returned mask)
  | _, _ => none

inductive UserChoice where
  | call (choice : Choice)
  | poll (events : BitVec 32)

-- Processes that call the device and processes that poll it.
def users : Program World (Local ⊕ Poller) UserChoice := fun me choice here w =>
  match here, choice with
  | .inl here, .call choice => (driver me choice here w).map (Prod.map id .inl)
  | .inl .idle, .poll events => some (w, .inr ⟨events, .queueRead⟩)
  | .inl (.done _), .poll events => some (w, .inr ⟨events, .queueRead⟩)
  | .inr ⟨_, .returned _⟩, .call (.start request) => some (w, .inl request.enter)
  | .inr ⟨_, .returned _⟩, .poll events => some (w, .inr ⟨events, .queueRead⟩)
  | .inr ⟨events, pc⟩, .call choice =>
      (pollerStep events me w pc choice).map (Prod.map id fun pc => .inr ⟨events, pc⟩)
  | _, _ => none

abbrev UsersSystem := State World (Local ⊕ Poller)

def usersBoot (dev : Dev) : UsersSystem where
  shared := (boot dev).shared
  locals := fun _ => .inl .idle

end Model

section Moves

inductive PollerMove (events : BitVec 32) (me : Nat) (w : World) :
    PollerPc → World → PollerPc → Prop
  | queueRead : PollerMove events me w .queueRead (w.enqueue .read me) .queueWrite
  | queueWrite : PollerMove events me w .queueWrite (w.enqueue .write me) .sample
  | sampleSpsc (h : w.dev.mode = .SPSC) : PollerMove events me w .sample w .empty
  | sampleBlocking (h : w.dev.mode = .BLOCKING) : PollerMove events me w .sample w .lock
  | empty : PollerMove events me w .empty w (.emptyCons w.dev.prodIdx)
  | emptyCons {prod : BitVec 32} :
      PollerMove events me w (.emptyCons prod) w (.full (prod = w.dev.consIdx))
  | full {isEmpty : Bool} :
      PollerMove events me w (.full isEmpty) w (.fullCons isEmpty w.dev.prodIdx)
  | fullCons {isEmpty : Bool} {prod : BitVec 32} :
      PollerMove events me w (.fullCons isEmpty prod) w
        (.check isEmpty (w.dev.numBuffers ≤ (prod - w.dev.consIdx).toNat))
  | lock (h : w.lock = none) : PollerMove events me w .lock { w with lock := some me } .test
  | test : PollerMove events me w .test w (.unlock (ringIsEmpty w.dev) (ringIsFull w.dev))
  | unlock {isEmpty isFull : Bool} :
      PollerMove events me w (.unlock isEmpty isFull) w.release (.check isEmpty isFull)
  | sleep {isEmpty isFull : Bool} (h : pollMask isEmpty isFull &&& events = 0) :
      PollerMove events me w (.check isEmpty isFull) w (.asleep isEmpty isFull)
  | ready {isEmpty isFull : Bool} (h : pollMask isEmpty isFull &&& events ≠ 0) :
      PollerMove events me w (.check isEmpty isFull) w
        (.leaveRead (pollMask isEmpty isFull &&& events))
  | again {isEmpty isFull : Bool} :
      PollerMove events me w (.asleep isEmpty isFull) (w.rearm me) .sample
  | giveUp {isEmpty isFull : Bool} :
      PollerMove events me w (.asleep isEmpty isFull) w (.leaveRead 0)
  | leaveRead {mask : BitVec 32} :
      PollerMove events me w (.leaveRead mask) (w.dequeue .read me) (.leaveWrite mask)
  | leaveWrite {mask : BitVec 32} :
      PollerMove events me w (.leaveWrite mask) (w.dequeue .write me) (.returned mask)

theorem pollerStep_move {events : BitVec 32} {me : Nat} {w w' : World} {pc next : PollerPc}
    {choice : Choice} (h : pollerStep events me w pc choice = some (w', next)) :
    PollerMove events me w pc w' next := by
  cases pc with
  | sample =>
      cases choice <;> simp only [pollerStep, reduceCtorEq] at h
      split at h
      · obtain ⟨rfl, rfl⟩ := Prod.mk.inj (Option.some.inj h)
        exact .sampleSpsc ‹_›
      · obtain ⟨rfl, rfl⟩ := Prod.mk.inj (Option.some.inj h)
        exact .sampleBlocking ‹_›
  | lock =>
      cases choice <;> simp only [pollerStep, reduceCtorEq] at h
      obtain ⟨v, hv, hnext⟩ := Option.map_eq_some_iff.mp h
      obtain ⟨hl, rfl⟩ := acquire_eq_some hv
      obtain ⟨rfl, rfl⟩ := Prod.mk.inj hnext
      exact .lock hl
  | check isEmpty isFull =>
      cases choice <;> simp only [pollerStep, reduceCtorEq] at h
      split at h
      · obtain ⟨rfl, rfl⟩ := Prod.mk.inj (Option.some.inj h)
        exact .sleep ‹_›
      · obtain ⟨rfl, rfl⟩ := Prod.mk.inj (Option.some.inj h)
        exact .ready ‹_›
  | asleep isEmpty isFull =>
      cases choice <;> simp only [pollerStep, reduceCtorEq] at h
      · split at h
        · cases h
        · obtain ⟨rfl, rfl⟩ := Prod.mk.inj (Option.some.inj h)
          exact .again
      · obtain ⟨rfl, rfl⟩ := Prod.mk.inj (Option.some.inj h)
        exact .giveUp
      · obtain ⟨rfl, rfl⟩ := Prod.mk.inj (Option.some.inj h)
        exact .again
  | queueRead | queueWrite | empty | emptyCons | full | fullCons | test | unlock | leaveRead
  | leaveWrite =>
      cases choice <;> simp only [pollerStep, reduceCtorEq] at h
      obtain ⟨rfl, rfl⟩ := Prod.mk.inj (Option.some.inj h)
      constructor
  | returned => cases choice <;> simp only [pollerStep, reduceCtorEq] at h

-- A step of the driver, or a step of a process that polls.
inductive UserMove (me : Nat) (w : World) :
    UserChoice → Local ⊕ Poller → World → Local ⊕ Poller → Prop
  | call {choice : Choice} {here next : Local} {w' : World}
      (h : driver me choice here w = some (w', next)) :
      UserMove me w (.call choice) (.inl here) w' (.inl next)
  | enter {events mask : BitVec 32} {request : Request} :
      UserMove me w (.call (.start request)) (.inr ⟨events, .returned mask⟩) w
        (.inl request.enter)
  | poll {here : Local ⊕ Poller} {events : BitVec 32}
      (h : here = .inl .idle ∨ (∃ ret, here = .inl (.done ret)) ∨
        ∃ old mask, here = .inr ⟨old, .returned mask⟩) :
      UserMove me w (.poll events) here w (.inr ⟨events, .queueRead⟩)
  | go {choice : Choice} {events : BitVec 32} {pc next : PollerPc} {w' : World}
      (hstart : ∀ request, choice ≠ .start request) (h : PollerMove events me w pc w' next) :
      UserMove me w (.call choice) (.inr ⟨events, pc⟩) w' (.inr ⟨events, next⟩)

theorem pollerStep_start {events : BitVec 32} {me : Nat} {w : World} {pc : PollerPc}
    {request : Request} : pollerStep events me w pc (.start request) = none := by
  cases pc <;> rfl

theorem users_move {me : Nat} {w w' : World} {choice : UserChoice} {here next : Local ⊕ Poller}
    (h : users me choice here w = some (w', next)) : UserMove me w choice here w' next := by
  unfold users at h
  split at h
  · obtain ⟨⟨v, after⟩, hv, hnext⟩ := Option.map_eq_some_iff.mp h
    obtain ⟨rfl, rfl⟩ := Prod.mk.inj hnext
    exact .call hv
  · obtain ⟨rfl, rfl⟩ := Prod.mk.inj (Option.some.inj h)
    exact .poll (Or.inl rfl)
  · obtain ⟨rfl, rfl⟩ := Prod.mk.inj (Option.some.inj h)
    exact .poll (Or.inr (Or.inl ⟨_, rfl⟩))
  · obtain ⟨rfl, rfl⟩ := Prod.mk.inj (Option.some.inj h)
    exact .enter
  · obtain ⟨rfl, rfl⟩ := Prod.mk.inj (Option.some.inj h)
    exact .poll (Or.inr (Or.inr ⟨_, _, rfl⟩))
  · obtain ⟨⟨v, after⟩, hv, hnext⟩ := Option.map_eq_some_iff.mp h
    obtain ⟨rfl, rfl⟩ := Prod.mk.inj hnext
    refine .go (fun request hr => ?_) (pollerStep_move hv)
    rw [hr, pollerStep_start] at hv
    cases hv
  · cases h

theorem users_step_move {s t : UsersSystem} {act : Act UserChoice}
    (h : step users s act = some t) :
    ∃ w here, UserMove act.pid s.shared act.choice (s.locals act.pid) w here ∧
      t = s.put act.pid (w, here) := by
  obtain ⟨⟨w, here⟩, hp, rfl⟩ := step_eq_some h
  exact ⟨w, here, users_move hp, rfl⟩

-- Outside its critical section, polling changes only the caller's place on the queues.
theorem PollerMove.dev_eq {events : BitVec 32} {me : Nat} {w w' : World} {pc next : PollerPc}
    (h : PollerMove events me w pc w' next) : w'.dev = w.dev := by
  cases h <;> rfl

theorem mem_waiters_enqueue {w : World} {wq side : Wq} {me p : Nat} (hp : p ≠ me) :
    p ∈ (w.enqueue wq me).waiters side ↔ p ∈ w.waiters side := by
  cases wq <;> cases side <;>
    simp [World.enqueue, World.setWaiters, World.waiters, List.mem_insert_iff, hp]

theorem mem_waiters_dequeue {w : World} {wq side : Wq} {me p : Nat} (hp : p ≠ me) :
    p ∈ (w.dequeue wq me).waiters side ↔ p ∈ w.waiters side := by
  cases wq <;> cases side <;>
    simp [World.dequeue, World.setWaiters, World.waiters, hp]

theorem PollerMove.mem_waiters {events : BitVec 32} {me p : Nat} {w w' : World}
    {pc next : PollerPc} {side : Wq} (h : PollerMove events me w pc w' next) (hp : p ≠ me) :
    p ∈ w'.waiters side ↔ p ∈ w.waiters side := by
  cases h with
  | queueRead | queueWrite => exact mem_waiters_enqueue hp
  | again => exact (mem_waiters_enqueue hp).trans (mem_waiters_enqueue hp)
  | leaveRead | leaveWrite => exact mem_waiters_dequeue hp
  | sampleSpsc | sampleBlocking | empty | emptyCons | full | fullCons | lock | test | unlock | sleep
  | ready | giveUp => cases side <;> exact Iff.rfl

end Moves

section Driving

-- The driver's side of a process. A poller is in kbuf_poll while it needs the lock.
def PollerPc.driving : PollerPc → Local
  | .lock => .poll .lock
  | .test => .poll .test
  | .unlock isEmpty isFull => .poll (.unlock (pollMask isEmpty isFull))
  | .check isEmpty isFull => .done (.mask (pollMask isEmpty isFull))
  | _ => .idle

def driving : Local ⊕ Poller → Local
  | .inl here => here
  | .inr poller => poller.pc.driving

def drivingOf (s : UsersSystem) : System where
  shared := s.shared
  locals := fun p => driving (s.locals p)

theorem drivingOf_put (s : UsersSystem) (p : Nat) (w : World) (here : Local ⊕ Poller) :
    drivingOf (s.put p (w, here)) = (drivingOf s).put p (w, driving here) :=
  State.map_put id driving s p (w, here)

-- Outside the driver, or in kbuf_poll before its lock.
def Local.away : Local → Bool
  | .idle | .done (.mask _) | .poll .lock => true
  | _ => false

-- A step that the driver takes no part in: the caller at most moves on the wait queues.
structure Aside (w : World) (here : Local) (w' : World) (next : Local) : Prop where
  world : ∃ reads writes, w' = { w with readWq := reads, writeWq := writes }
  here_holds : here.holds = false
  here_owes : ∀ side, here.owesWake side = false
  next_away : next.away = true

end Driving

end Kbuf
