import Kbuf.Weak.Delivery
import Kbuf.Weak.WaitSteps

namespace Kbuf

open Interleaving ReleaseAcquire Handoff

section Definitions

-- The index that the threads on a queue wait for, who publishes it and who waits.
def Wq.index : Wq → SpscIndex
  | .read => .prod
  | .write => .cons

def Wq.waker (producer consumer : Nat) : Wq → Nat
  | .read => producer
  | .write => consumer

def Wq.sleeper (producer consumer : Nat) : Wq → Nat
  | .read => consumer
  | .write => producer

-- The threads without the wait queues.
def ringOf (s : WeakWaitSystem) : WeakSpscSystem where
  shared := s.shared.dev
  locals p := (s.locals p).here

-- What a thread is at when it is in the middle of a wait or a wake-up.
def WaitPhase.Ok (producer consumer p : Nat) (here : WeakLocal) : WaitPhase → Prop
  | .running | .interrupted => True
  | .prepare .read => ∃ nonblock u, here = .read nonblock u .test
  | .prepare .write => ∃ nonblock u, here = .write nonblock u .test
  | .wake wq => p = wq.waker producer consumer ∧ ∃ ret, here = .done ret

structure WeakWaitInv (producer consumer peak : Nat) (s : WeakWaitSystem) : Prop where
  ring : WeakSpscInv producer consumer peak (ringOf s)
  dated : Dated s.shared.dev.mem
  locks : ∀ wq l, (s.shared.queue wq).view.seen l < (s.shared.dev.mem.history l).length
  watched : ∀ wq : Wq, Watched s.shared.dev.mem (s.shared.queue wq) wq.index
    (wq.waker producer consumer) (wq.sleeper producer consumer)
    ((s.locals (wq.waker producer consumer)).owes wq = true)
  tested : ∀ p, (s.locals p).here.Tested s.shared.dev.numBuffers s.shared.dev.mem p
  phases : ∀ p, (s.locals p).phase.Ok producer consumer p (s.locals p).here

-- One thread reads and another one writes.
def WeakWaitPair (producer consumer : Nat) (s : WeakWaitSystem) (act : Act WeakSpscChoice) :
    Prop :=
  WeakPair producer consumer (ringOf s) act

end Definitions

section Projection

variable {s : WeakWaitSystem} {me : Nat} {producer consumer peak : Nat}

theorem ringOf_put (s : WeakWaitSystem) (me : Nat) (w : WeakWorld) (next : WeakWaiter) :
    ringOf (s.put me (w, next)) = (ringOf s).put me (w.dev, next.here) := by
  simp only [ringOf, State.put, State.mk.injEq, true_and]
  funext p
  by_cases hp : p = me
  · subst hp
    simp
  · simp [hp]

theorem WeakSpscInv.own_prod {s : WeakSpscSystem} (h : WeakSpscInv producer consumer peak s) :
    (s.shared.mem.view producer).seen .prod + 1 = (s.shared.mem.history .prod).length := by
  obtain ⟨p, c, hok, -⟩ := h.parties
  have hown := hok.channel.producer.own
  rwa [hok.producer_thread, hok.prod] at hown

theorem WeakSpscInv.own_cons {s : WeakSpscSystem} (h : WeakSpscInv producer consumer peak s) :
    (s.shared.mem.view consumer).seen .cons + 1 = (s.shared.mem.history .cons).length := by
  obtain ⟨p, c, hok, -⟩ := h.parties
  have hown := hok.channel.consumer.own
  rwa [hok.consumer_thread, hok.cons] at hown

theorem WeakSpscInv.valid {s : WeakSpscSystem} (h : WeakSpscInv producer consumer peak s) :
    s.shared.mem.Valid := by
  obtain ⟨p, c, hok, -⟩ := h.parties
  exact hok.channel.valid

theorem WeakSpscInv.ne {s : WeakSpscSystem} (h : WeakSpscInv producer consumer peak s) :
    producer ≠ consumer := by
  obtain ⟨p, c, hok, -⟩ := h.parties
  rw [← hok.producer_thread, ← hok.consumer_thread]
  exact hok.channel.threads

theorem WeakSpscInv.reader {s : WeakSpscSystem} (h : WeakSpscInv producer consumer peak s)
    {q : Nat} {nonblock : Bool} {u : UserRead} {pc : WeakReadPc}
    (hhere : s.locals q = .read nonblock u pc) : q = consumer := by
  obtain ⟨p, c, -, hlocal⟩ := h.parties
  have hq := hlocal q
  rw [hhere] at hq
  exact hq.1

theorem WeakSpscInv.writer {s : WeakSpscSystem} (h : WeakSpscInv producer consumer peak s)
    {q : Nat} {nonblock : Bool} {u : UserWrite} {pc : WeakWritePc}
    (hhere : s.locals q = .write nonblock u pc) : q = producer := by
  obtain ⟨p, c, -, hlocal⟩ := h.parties
  have hq := hlocal q
  rw [hhere] at hq
  exact hq.1

-- The ring is indifferent to what a thread learns from a lock.
theorem WeakSpscInv.grow {s : WeakSpscSystem} (h : WeakSpscInv producer consumer peak s)
    {mem : SpscMemory} (hgrow : Grows s.shared.mem mem) (hcell : mem.cell = s.shared.mem.cell) :
    WeakSpscInv producer consumer peak ⟨{ s.shared with mem := mem }, s.locals⟩ := by
  obtain ⟨p, c, hok, hlocal⟩ := h.parties
  have hlast (party : Party SpscIndex) : party.last mem = party.last s.shared.mem :=
    last_eq hgrow.history
  have hnext (party : Party SpscIndex) :
      WeakDev.next { s.shared with mem := mem } party = s.shared.next party := by
    simp only [WeakDev.next, hlast, hcell]
  refine ⟨p, c, { hok with channel := hok.channel.grow hgrow, fits := ?_, delivered := ?_ },
    fun q => (hlocal q).of_eq (fun _ _ _ hp => ?_) fun _ _ _ hc => ?_⟩
  · rw [hcell]
    exact hok.fits
  · simp only [pending, hlast, hcell]
    exact hok.delivered
  · exact hp.frame rfl rfl (hlast p) rfl (hnext p)
  · exact hc.frame (hlast c) rfl fun _ => hnext c

end Projection

section Holds

variable {w : WeakWorld} {wq other : Wq} {me : Nat} {waiters : List Nat}

theorem hold_dev : (w.hold wq me waiters).dev =
    { w.dev with mem := w.dev.mem.setView me (w.dev.mem.locked me (w.queue wq)) } := by
  cases wq <;> rfl

theorem hold_queue_self :
    (w.hold wq me waiters).queue wq = ⟨waiters, w.dev.mem.locked me (w.queue wq)⟩ := by
  cases wq <;> rfl

theorem hold_queue_of_ne (h : other ≠ wq) : (w.hold wq me waiters).queue other = w.queue other := by
  cases wq <;> cases other <;> first | rfl | exact absurd rfl h

theorem grows_locked {m : SpscMemory} (hvalid : m.Valid) {q : Queue SpscIndex}
    (hq : ∀ l, q.view.seen l < (m.history l).length) (me : Nat) :
    Grows m (m.setView me (m.locked me q)) where
  history := rfl
  accesses := rfl
  raced := rfl
  seen := seen_le_setView (seen_le_locked m me q)
  clock := clock_le_setView (clock_le_join_left _ _)
  valid := hvalid.setView (hvalid.locked hq me)

end Holds

section Tested

variable {numBuffers q : Nat} {m m' : SpscMemory} {here : WeakLocal}

theorem WeakLocal.Tested.frame (h : here.Tested numBuffers m q) (hview : m'.view q = m.view q)
    (hstored : ∀ l i value, Stored m l i value → Stored m' l i value)
    (hread : ∀ nonblock u pc, here = .read nonblock u pc → m'.newest .cons = m.newest .cons)
    (hwrite : ∀ nonblock u pc, here = .write nonblock u pc → m'.newest .prod = m.newest .prod) :
    here.Tested numBuffers m' q := by
  cases here with
  | idle | done => trivial
  | read nonblock u pc =>
      have hnewest := hread _ _ _ rfl
      cases pc with
      | testCons prod =>
          simp only [WeakLocal.Tested, hview]
          exact hstored _ _ _ h
      | asleep =>
          obtain ⟨value, hprod, hcons⟩ := h
          simp only [WeakLocal.Tested, hview, hnewest]
          exact ⟨value, hstored _ _ _ hprod, hstored _ _ _ hcons⟩
      | _ => trivial
  | write nonblock u pc =>
      have hnewest := hwrite _ _ _ rfl
      cases pc with
      | testCons prod =>
          simp only [WeakLocal.Tested, hnewest]
          exact hstored _ _ _ h
      | asleep =>
          obtain ⟨prod, cons, hprod, hcons, hfull⟩ := h
          simp only [WeakLocal.Tested, hview, hnewest]
          exact ⟨prod, cons, hstored _ _ _ hprod, hstored _ _ _ hcons, hfull⟩
      | _ => trivial

theorem WeakLocal.Tested.storeless {me : Nat} (h : here.Tested numBuffers m q)
    (hmem : Storeless me m m') (hq : q ≠ me) : here.Tested numBuffers m' q := by
  have hnewest (l : SpscIndex) : m'.newest l = m.newest l := by
    rw [Memory.newest, hmem.history]
    rfl
  exact h.frame (hmem.others q hq)
    (fun l _ _ hstored => hstored.of_history_eq (congrFun hmem.history l))
    (fun _ _ _ _ => hnewest _) fun _ _ _ _ => hnewest _

end Tested

section RingSteps

variable {producer consumer me sleeper : Nat} {wq : Wq} {dev dev' : WeakDev}
  {next : WeakLocal} {q : Queue SpscIndex} {owes owes' : Prop}

theorem index_ne {other : Wq} (h : other ≠ wq) : other.index ≠ wq.index := by
  cases wq <;> cases other <;> first | exact absurd rfl h | decide

-- A step of the ring by the thread that publishes the index behind `wq`.
theorem RingStep.watched (h : RingStep me wq.index wq dev dev' next) {other : Wq}
    (hw : Watched dev.mem q other.index (other.waker producer consumer) sleeper owes)
    (hme : me = wq.waker producer consumer) (howes : owes → owes')
    (hpublish : other = wq → next.owes wq = true → owes') :
    Watched dev'.mem q other.index (other.waker producer consumer) sleeper owes' := by
  rcases h.mem with hmem | ⟨value, hmem, hnext⟩
  · exact hw.frame (congrFun hmem.history _) (fun t => hmem.seen_le t _) howes
  · rw [hmem]
    by_cases hother : other = wq
    · subst hother
      rw [← hme]
      exact watched_publish q _ me sleeper .release value (hpublish rfl hnext)
    · have hindex := index_ne hother
      refine hw.frame (store_history_of_ne .release value hindex) (fun t => ?_) howes
      rw [seen_store_of_ne .release t value hindex]

theorem RingStep.dated (h : RingStep me wq.index wq dev dev' next) (hdated : Dated dev.mem) :
    Dated dev'.mem := by
  rcases h.mem with hmem | ⟨value, hmem, -⟩
  · exact hdated.of_history_eq hmem.history
  · rw [hmem]
    exact hdated.store .release me _ value

theorem RingStep.length_le (h : RingStep me wq.index wq dev dev' next) (l : SpscIndex) :
    (dev.mem.history l).length ≤ (dev'.mem.history l).length := by
  rcases h.mem with hmem | ⟨value, hmem, -⟩
  · rw [hmem.history]
  · rw [hmem]
    exact length_le_store ..

-- The other thread's test stays as it is: the step publishes only the index of its own side.
theorem RingStep.tested_other {p : Nat} {other : WeakLocal}
    (h : RingStep me wq.index wq dev dev' next)
    (htested : other.Tested dev.numBuffers dev.mem p) (hp : p ≠ me)
    (hread : ∀ nonblock u pc, other = .read nonblock u pc → wq ≠ .write)
    (hwrite : ∀ nonblock u pc, other = .write nonblock u pc → wq ≠ .read) :
    other.Tested dev'.numBuffers dev'.mem p := by
  rw [h.num]
  rcases h.mem with hmem | ⟨value, hmem, -⟩
  · exact htested.storeless hmem hp
  · rw [hmem]
    refine htested.frame (store_view_of_ne .release _ value hp)
      (fun _ _ _ hstored => hstored.store ..) (fun _ _ _ heq => ?_) fun _ _ _ heq => ?_
    · exact newest_of_store_ne .release value (index_ne (hread _ _ _ heq)).symm
    · exact newest_of_store_ne .release value (index_ne (hwrite _ _ _ heq)).symm

end RingSteps

section Invariant

variable {producer consumer peak me : Nat} {s : WeakWaitSystem}

-- What a step of the ring is to the invariant: one of a side of the ring, or the start of a call.
inductive RingCase (producer consumer me : Nat) (dev dev' : WeakDev) (next : WeakLocal) : Prop
  | side (wq : Wq) (hme : me = wq.waker producer consumer)
      (h : RingStep me wq.index wq dev dev' next)
  | start (hdev : dev' = dev) (hnext : ∀ numBuffers m, next.Tested numBuffers m me)

theorem WeakWaitInv.ring_case (hinv : WeakWaitInv producer consumer peak s)
    {choice : WeakSpscChoice} {dev : WeakDev} {next : WeakLocal}
    (h : weakSpsc me choice (s.locals me).here s.shared.dev = some (dev, next)) :
    RingCase producer consumer me s.shared.dev dev next := by
  have htested := hinv.tested me
  have hreader := @WeakSpscInv.reader producer consumer peak _ hinv.ring me
  have hwriter := @WeakSpscInv.writer producer consumer peak _ hinv.ring me
  simp only [ringOf] at hreader hwriter
  generalize (s.locals me).here = here at h htested hreader hwriter
  cases here with
  | read nonblock u pc =>
      obtain rfl := hreader rfl
      exact .side .write rfl (weakReadSpscStep_ring hinv.dated hinv.ring.own_cons htested h)
  | write nonblock u pc =>
      obtain rfl := hwriter rfl
      exact .side .read rfl (weakWriteSpscStep_ring hinv.dated hinv.ring.own_prod htested h)
  | idle | done =>
      cases choice <;> simp only [weakSpsc, weakSpscEnter, reduceCtorEq] at h
      all_goals
        obtain ⟨rfl, rfl⟩ := Prod.mk.inj (Option.some.inj h)
        exact .start rfl fun _ _ => trivial

theorem owes_put {w : WeakWorld} {next : WeakWaiter} {wq : Wq} {p : Nat}
    (howes : (s.locals me).owes wq = true → next.owes wq = true)
    (h : (s.locals p).owes wq = true) : ((s.put me (w, next)).locals p).owes wq = true := by
  by_cases hp : p = me
  · subst hp
    rw [State.put_locals_self]
    exact howes h
  · rw [State.put_locals_of_ne s _ hp]
    exact h

theorem owes_of_here {next : WeakWaiter} {wq : Wq} (h : next.here.owes wq = true) :
    next.owes wq = true := by
  simp [WeakWaiter.owes, h]

theorem phases_put (w : WeakWorld) {next : WeakWaiter}
    (h : ∀ p, (s.locals p).phase.Ok producer consumer p (s.locals p).here)
    (hnext : next.phase.Ok producer consumer me next.here) (p : Nat) :
    ((s.put me (w, next)).locals p).phase.Ok producer consumer p
      ((s.put me (w, next)).locals p).here :=
  State.forall_put
    (P := fun p (thread : WeakWaiter) => thread.phase.Ok producer consumer p thread.here)
    hnext (fun p _ => h p) p

theorem WeakWaitInv.ring_step (hinv : WeakWaitInv producer consumer peak s)
    {choice : WeakSpscChoice} {dev : WeakDev} {next : WeakWaiter}
    (hpair : WeakPair producer consumer (ringOf s) ⟨me, choice⟩)
    (h : weakSpsc me choice (s.locals me).here s.shared.dev = some (dev, next.here))
    (hphase : next.phase.Ok producer consumer me next.here)
    (howes : ∀ wq, (s.locals me).owes wq = true → next.owes wq = true) :
    WeakWaitInv producer consumer peak (s.put me ({ s.shared with dev := dev }, next)) := by
  have hring : WeakSpscInv producer consumer peak ((ringOf s).put me (dev, next.here)) := by
    refine weakSpscInv_step hinv.ring hpair ?_
    simp only [step, ringOf, h, Option.map_some]
  rw [← ringOf_put s me { s.shared with dev := dev } next] at hring
  have hphases := phases_put { s.shared with dev := dev } hinv.phases hphase
  rcases hinv.ring_case h with ⟨wq, hme, hstep⟩ | ⟨rfl, hnext⟩
  · refine ⟨hring, hstep.dated hinv.dated, fun other l => ?_, fun other => ?_, ?_, hphases⟩
    · exact Nat.lt_of_lt_of_le (hinv.locks other l) (hstep.length_le l)
    · refine hstep.watched (hinv.watched other) hme (owes_put (howes other)) fun hother hpublish =>
        ?_
      subst hother
      rw [← hme, State.put_locals_self]
      exact owes_of_here hpublish
    · refine State.forall_put (P := fun p (thread : WeakWaiter) =>
        thread.here.Tested dev.numBuffers dev.mem p) ?_ fun p hp => ?_
      · rw [hstep.num]
        exact hstep.tested
      · refine hstep.tested_other (hinv.tested p) hp (fun _ _ _ heq hwq => ?_)
          fun _ _ _ heq hwq => ?_
        · subst hwq
          exact hp ((hinv.ring.reader heq).trans hme.symm)
        · subst hwq
          exact hp ((hinv.ring.writer heq).trans hme.symm)
  · refine ⟨hring, hinv.dated, hinv.locks, fun other => ?_, ?_, hphases⟩
    · exact (hinv.watched other).frame rfl (fun _ => Nat.le_refl _) (owes_put (howes other))
    · exact State.forall_put (P := fun p (thread : WeakWaiter) =>
        thread.here.Tested s.shared.dev.numBuffers s.shared.dev.mem p) (hnext _ _)
        fun p _ => hinv.tested p

-- A critical section of a queue's lock by a thread that is not about to sleep.
theorem WeakWaitInv.hold_step (hinv : WeakWaitInv producer consumer peak s) (me : Nat) (wq : Wq)
    (waiters : List Nat) (phase : WaitPhase)
    (hfree : ∀ numBuffers m, (s.locals me).here.Tested numBuffers m me)
    (hphase : phase.Ok producer consumer me (s.locals me).here)
    (hwatched : Watched (s.shared.dev.mem.setView me (s.shared.dev.mem.locked me
      (s.shared.queue wq))) ⟨waiters, s.shared.dev.mem.locked me (s.shared.queue wq)⟩ wq.index
      (wq.waker producer consumer) (wq.sleeper producer consumer)
      (((s.put me (s.shared.hold wq me waiters, ⟨(s.locals me).here, phase⟩)).locals
        (wq.waker producer consumer)).owes wq = true))
    (howes : ∀ other, other ≠ wq → (s.locals me).owes other = true →
      (⟨(s.locals me).here, phase⟩ : WeakWaiter).owes other = true) :
    WeakWaitInv producer consumer peak
      (s.put me (s.shared.hold wq me waiters, ⟨(s.locals me).here, phase⟩)) := by
  have hvalid := hinv.ring.valid
  have hgrow := grows_locked hvalid (hinv.locks wq) me
  have hmem := storeless_setView (seen_le_locked s.shared.dev.mem me (s.shared.queue wq))
  refine ⟨?_, ?_, fun other l => ?_, fun other => ?_, ?_, ?_⟩
  · have hring := hinv.ring.grow hgrow rfl
    rw [ringOf_put, hold_dev]
    convert hring using 1
    simp only [State.put, ringOf, State.mk.injEq, true_and]
    exact Function.update_eq_self me _
  · rw [State.put_shared, hold_dev]
    exact hinv.dated.of_history_eq rfl
  · rw [State.put_shared, hold_dev]
    by_cases hother : other = wq
    · subst hother
      rw [hold_queue_self]
      exact hvalid.locked (hinv.locks other) me l
    · rw [hold_queue_of_ne hother]
      exact hinv.locks other l
  · rw [State.put_shared, hold_dev]
    by_cases hother : other = wq
    · subst hother
      rw [hold_queue_self]
      exact hwatched
    · rw [hold_queue_of_ne hother]
      exact (hinv.watched other).frame rfl (fun t => hmem.seen_le t _)
        (owes_put (howes other hother))
  · rw [State.put_shared, hold_dev]
    exact State.forall_put (P := fun p (thread : WeakWaiter) => thread.here.Tested
      s.shared.dev.numBuffers (s.shared.dev.mem.setView me _) p) (hfree _ _)
      fun p hp => (hinv.tested p).storeless hmem hp
  · exact phases_put _ hinv.phases hphase

end Invariant

end Kbuf
