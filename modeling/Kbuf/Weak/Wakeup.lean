import Kbuf.Weak.WaitInvariant

namespace Kbuf

open Interleaving ReleaseAcquire Handoff

section Points

variable {me : Nat} {here next : WeakLocal} {wq : Wq} {dev dev' : WeakDev} {choice : WeakSpscChoice}

theorem asleepOn_eq_some (h : here.asleepOn = some wq) :
    (wq = .read ∧ ∃ nonblock u, here = .read nonblock u .asleep) ∨
      (wq = .write ∧ ∃ nonblock u, here = .write nonblock u .asleep) := by
  unfold WeakLocal.asleepOn at h
  split at h
  · exact Or.inl ⟨(Option.some.inj h).symm, _, _, rfl⟩
  · exact Or.inr ⟨(Option.some.inj h).symm, _, _, rfl⟩
  · cases h

-- Whoever goes to sleep has nothing left to wake.
theorem owes_of_asleepOn (h : here.asleepOn = some wq) (other : Wq) : here.owes other = false := by
  rcases asleepOn_eq_some h with ⟨-, nonblock, u, rfl⟩ | ⟨-, nonblock, u, rfl⟩ <;> rfl

theorem schedule_test {producer consumer : Nat} (h : here.asleepOn = some wq)
    (hring : weakSpsc me .go here dev = some (dev', next)) :
    (WaitPhase.prepare wq).Ok producer consumer me next := by
  rcases asleepOn_eq_some h with ⟨rfl, nonblock, u, rfl⟩ | ⟨rfl, nonblock, u, rfl⟩
  · obtain ⟨-, rfl⟩ := Prod.mk.inj (Option.some.inj hring)
    exact ⟨nonblock, u, rfl⟩
  · obtain ⟨-, rfl⟩ := Prod.mk.inj (Option.some.inj hring)
    exact ⟨nonblock, u, rfl⟩

theorem owes_of_testing (h : here.testing = some wq) (other : Wq) : here.owes other = false := by
  unfold WeakLocal.testing at h
  split at h
  · rfl
  · rfl
  · cases h

-- A condition that holds ends the test, and nothing is known of the indices any more.
theorem tested_of_finish (h : here.testing = some wq) (hnext : next.asleepOn = none)
    (hring : weakSpsc me choice here dev = some (dev', next)) (numBuffers : Nat) (m : SpscMemory) :
    next.Tested numBuffers m me := by
  unfold WeakLocal.testing at h
  split at h
  · cases choice <;> simp only [weakSpsc, weakReadSpscStep, reduceCtorEq] at hring
    obtain ⟨cons, mem, -, -, rfl⟩ := loads_eq_some hring
    split at hnext
    · cases hnext
    · rename_i hne
      rw [if_neg hne]
      trivial
  · cases choice <;> simp only [weakSpsc, weakWriteSpscStep, reduceCtorEq] at hring
    obtain ⟨cons, mem, -, -, rfl⟩ := loads_eq_some hring
    split at hnext
    · cases hnext
    · rename_i hne
      rw [if_neg hne]
      trivial
  · cases h

theorem returning_eq_some (h : here.returning = some wq) :
    (wq = .write ∧ ∃ nonblock u f, here = .read nonblock u (.trace f)) ∨
      (wq = .read ∧ ∃ nonblock u occ, here = .write nonblock u (.peak occ)) := by
  unfold WeakLocal.returning at h
  split at h
  · exact Or.inl ⟨(Option.some.inj h).symm, _, _, _, rfl⟩
  · exact Or.inr ⟨(Option.some.inj h).symm, _, _, _, rfl⟩
  · cases h

theorem done_of_returning (h : here.returning = some wq)
    (hring : weakSpsc me choice here dev = some (dev', next)) : ∃ ret, next = .done ret := by
  rcases returning_eq_some h with ⟨-, nonblock, u, f, rfl⟩ | ⟨-, nonblock, u, occ, rfl⟩
  · cases choice <;> simp only [weakSpsc, weakReadSpscStep, reduceCtorEq] at hring
    obtain ⟨⟨prod, mem⟩, -, heq⟩ := Option.map_eq_some_iff.mp hring
    exact ⟨_, (Prod.mk.inj heq).2.symm⟩
  · cases choice <;> simp only [weakSpsc, weakWriteSpscStep, reduceCtorEq] at hring
    exact ⟨_, (Prod.mk.inj (Option.some.inj hring)).2.symm⟩

theorem owes_running {phase : WaitPhase} (hphase : phase = .running ∨ phase = .interrupted)
    (other : Wq) (h : (⟨here, phase⟩ : WeakWaiter).owes other = true) : here.owes other = true := by
  rcases hphase with rfl | rfl
  · simpa [WeakWaiter.owes] using h
  · simpa [WeakWaiter.owes] using h

end Points

section Steps

variable {producer consumer peak me : Nat} {s : WeakWaitSystem} {here next : WeakLocal} {wq : Wq}

theorem WeakWaitInv.sleeper_of_prepare (hinv : WeakWaitInv producer consumer peak s)
    (hthread : s.locals me = ⟨here, .prepare wq⟩) :
    me = wq.sleeper producer consumer ∧ ∀ numBuffers m, here.Tested numBuffers m me := by
  have hphase := hinv.phases me
  have hreader := @WeakSpscInv.reader producer consumer peak _ hinv.ring me
  have hwriter := @WeakSpscInv.writer producer consumer peak _ hinv.ring me
  simp only [ringOf, hthread] at hphase hreader hwriter
  cases wq with
  | read =>
      obtain ⟨nonblock, u, rfl⟩ := hphase
      exact ⟨hreader rfl, fun _ _ => trivial⟩
  | write =>
      obtain ⟨nonblock, u, rfl⟩ := hphase
      exact ⟨hwriter rfl, fun _ _ => trivial⟩

theorem WeakWaitInv.prepare (hinv : WeakWaitInv producer consumer peak s)
    (hthread : s.locals me = ⟨here, .prepare wq⟩) (waiters : List Nat) {phase : WaitPhase}
    (hphase : phase = .running ∨ phase = .interrupted) :
    WeakWaitInv producer consumer peak
      (s.put me (s.shared.hold wq me waiters, ⟨here, phase⟩)) := by
  obtain ⟨hme, hfree⟩ := hinv.sleeper_of_prepare hthread
  have howes (other : Wq) (h : (s.locals me).owes other = true) :
      (⟨here, phase⟩ : WeakWaiter).owes other = true := by
    rw [hthread] at h
    apply owes_of_here
    simpa [WeakWaiter.owes] using h
  have hok : phase.Ok producer consumer me here := by rcases hphase with rfl | rfl <;> trivial
  have hstep := hinv.hold_step me wq waiters phase
  rw [hthread] at hstep
  refine hstep hfree hok ?_ fun other _ h => howes other (hthread ▸ h)
  exact ((hinv.watched wq).hold me fun _ => Or.inr hme).frame rfl (fun _ => Nat.le_refl _)
    (owes_put (howes wq))

theorem WeakWaitInv.wake (hinv : WeakWaitInv producer consumer peak s)
    (hthread : s.locals me = ⟨here, .wake wq⟩) :
    WeakWaitInv producer consumer peak (s.put me (s.shared.wakeUp wq me, ⟨here, .running⟩)) := by
  have hphase := hinv.phases me
  rw [hthread] at hphase
  obtain ⟨hme, ret, rfl⟩ := hphase
  have hstep := hinv.hold_step me wq [] .running
  rw [hthread] at hstep
  refine hstep (fun _ _ => trivial) trivial ?_ fun other hother h => ?_
  · have hwatched := hinv.watched wq
    rw [← hme] at hwatched ⊢
    exact hwatched.wake
  · exfalso
    simp [WeakWaiter.owes, WeakLocal.owes] at h
    exact hother h.symm

theorem WeakWaitInv.finish (hinv : WeakWaitInv producer consumer peak s) (wq : Wq)
    (hthread : s.locals me = ⟨next, .running⟩)
    (hfree : ∀ numBuffers m, next.Tested numBuffers m me) :
    WeakWaitInv producer consumer peak
      (s.put me (s.shared.finishWait wq me, ⟨next, .running⟩)) := by
  unfold WeakWorld.finishWait
  split
  · have hstep := hinv.hold_step me wq ((s.shared.queue wq).waiters.filter (· ≠ me)) .running
    rw [hthread] at hstep
    refine hstep hfree trivial ?_ fun _ _ h => h
    refine ((hinv.watched wq).hold me fun hmem => Or.inl (List.mem_of_mem_filter hmem)).frame rfl
      (fun _ => Nat.le_refl _) (owes_put fun h => ?_)
    rwa [hthread] at h
  · have hsame : s.put me (s.shared, ⟨next, .running⟩) = s := by
      rw [← hthread]
      exact congrArg (State.mk s.shared) (Function.update_eq_self me s.locals)
    rw [hsame]
    exact hinv

end Steps

section Runs

variable {producer consumer peak : Nat} {s t : WeakWaitSystem} {act : Act WeakSpscChoice}

theorem weakWaitInv_step (hinv : WeakWaitInv producer consumer peak s)
    (hpair : WeakWaitPair producer consumer s act) (h : step weakWaits s act = some t) :
    WeakWaitInv producer consumer peak t := by
  obtain ⟨⟨w, thread⟩, hp, rfl⟩ := step_eq_some h
  have hmove := weakWaits_move hp
  generalize hthread : s.locals act.pid = here at hmove
  obtain ⟨me, choice⟩ := act
  dsimp only at hmove hthread ⊢
  cases hmove with
  | prepare => exact hinv.prepare hthread _ (Or.inl rfl)
  | prepareSignal => exact hinv.prepare hthread _ (Or.inr rfl)
  | wake => exact hinv.wake hthread
  | schedule hasleep hchoice hring =>
      have hgo : WeakPair producer consumer (ringOf s) ⟨me, .go⟩ := trivial
      refine hinv.ring_step hgo (by rw [hthread]; exact hring) (schedule_test hasleep hring)
        fun other howes => ?_
      rw [hthread] at howes
      have hnone := owes_of_asleepOn hasleep other
      rw [owes_running (Or.inl rfl) other howes] at hnone
      cases hnone
  | ring hphase hphase' hreturn hring =>
      refine hinv.ring_step hpair (by rw [hthread]; exact hring) ?_ fun other howes => ?_
      · rcases hphase' with rfl | rfl <;> trivial
      · rw [hthread] at howes
        rcases owes_ring hring (owes_running hphase other howes) with hnext | hnow
        · exact owes_of_here hnext
        · rw [hreturn] at hnow
          cases hnow
  | @finish wq _ here after phase dev hphase htesting hafter hring =>
      have hfirst : WeakWaitInv producer consumer peak
          (s.put me ({ s.shared with dev := dev }, ⟨after, .running⟩)) := by
        refine hinv.ring_step hpair (by rw [hthread]; exact hring) trivial fun other howes => ?_
        rw [hthread] at howes
        have hnone := owes_of_testing htesting other
        rw [owes_running hphase other howes] at hnone
        cases hnone
      have hsecond := hfirst.finish wq (State.put_locals_self ..)
        (tested_of_finish htesting hafter hring)
      rwa [State.put_put] at hsecond
  | @returns wq _ here after phase dev hphase hreturn hring =>
      refine hinv.ring_step hpair (by rw [hthread]; exact hring) ?_ fun other howes => ?_
      · refine ⟨?_, done_of_returning hreturn hring⟩
        have hreader := @WeakSpscInv.reader producer consumer peak _ hinv.ring me
        have hwriter := @WeakSpscInv.writer producer consumer peak _ hinv.ring me
        simp only [ringOf, hthread] at hreader hwriter
        rcases returning_eq_some hreturn with ⟨rfl, nonblock, u, f, rfl⟩ |
          ⟨rfl, nonblock, u, occ, rfl⟩
        · exact hreader rfl
        · exact hwriter rfl
      · rw [hthread] at howes
        have hnow := owes_running hphase other howes
        rcases owes_ring hring hnow with hnext | hother
        · exact owes_of_here hnext
        · rw [hreturn] at hother
          obtain rfl := Option.some.inj hother
          simp [WeakWaiter.owes]

theorem weakWaitInv_boot {dev : Dev} (hdev : Wellformed dev) (hmode : dev.mode = .SPSC)
    (hempty : queue dev = []) (hne : producer ≠ consumer) :
    WeakWaitInv producer consumer dev.peakCount (weakWaitBoot dev) where
  ring := weakSpscInv_boot hdev hmode hempty hne
  dated := dated_fresh _ _
  locks wq l := by cases wq <;> exact Nat.zero_lt_one
  watched wq := by cases wq <;> exact ⟨Nat.le_refl 0, Or.inr (Nat.le_refl 0), nofun⟩
  tested _ := trivial
  phases _ := trivial

end Runs

section Sleepers

variable {producer consumer peak : Nat} {s : WeakWaitSystem}

-- schedule() has put the thread to sleep, and nobody has woken it.
structure Sleeping (s : WeakWaitSystem) (p : Nat) (wq : Wq) : Prop where
  phase : (s.locals p).phase = .running
  asleep : (s.locals p).here.asleepOn = some wq
  queued : p ∈ (s.shared.queue wq).waiters

theorem Sleeping.owes {p : Nat} {wq : Wq} (h : Sleeping s p wq) (other : Wq) :
    (s.locals p).owes other = false := by
  simp [WeakWaiter.owes, owes_of_asleepOn h.asleep, h.phase]

section Counts

variable {p c : Party SpscIndex} {dev : WeakDev} {value : BitVec 32}

theorem WeakSpscOk.newest_prod (h : WeakSpscOk producer consumer peak p c dev)
    (hvalue : Stored dev.mem .prod (dev.mem.newest .prod) value) :
    value = BitVec.ofNat 32 (p.last dev.mem) := by
  obtain ⟨message, hmessage, rfl⟩ := hvalue
  rw [← h.prod] at hmessage
  exact h.channel.head_label _ message hmessage

theorem WeakSpscOk.newest_cons (h : WeakSpscOk producer consumer peak p c dev)
    (hvalue : Stored dev.mem .cons (dev.mem.newest .cons) value) :
    value = BitVec.ofNat 32 (c.last dev.mem) := by
  obtain ⟨message, hmessage, rfl⟩ := hvalue
  rw [← h.cons] at hmessage
  exact h.channel.tail_label _ message hmessage

theorem WeakSpscOk.length_sent (h : WeakSpscOk producer consumer peak p c dev) :
    dev.sent.length = dev.received.length + (p.last dev.mem - c.last dev.mem) := by
  obtain ⟨taken, htaken, hall⟩ := h.delivered
  rw [htaken, List.length_append, hall.length_eq, List.length_map, pending,
    Circular.length_window]

-- The difference of the newest indices is the number of messages in the ring.
theorem WeakSpscOk.newest_sub (h : WeakSpscOk producer consumer peak p c dev)
    {prod cons : BitVec 32} (hprod : Stored dev.mem .prod (dev.mem.newest .prod) prod)
    (hcons : Stored dev.mem .cons (dev.mem.newest .cons) cons) :
    dev.sent.length = dev.received.length + (prod - cons).toNat := by
  rw [h.newest_prod hprod, h.newest_cons hcons,
    h.sub_eq h.channel.last_le h.channel.last_le_add, h.length_sent]

end Counts

theorem WeakWaitInv.sleeping_reader (hinv : WeakWaitInv producer consumer peak s)
    (hsleep : Sleeping s consumer .read) (howes : ¬(s.locals producer).owes .read = true) :
    s.shared.dev.sent.length = s.shared.dev.received.length := by
  obtain ⟨p, c, hok, -⟩ := hinv.ring.parties
  have hseen := (hinv.watched .read).seen_eq hinv.ring.valid hsleep.queued howes
  have htested := hinv.tested consumer
  rcases asleepOn_eq_some hsleep.asleep with ⟨-, nonblock, u, hhere⟩ | ⟨hwq, -⟩
  · rw [hhere] at htested
    obtain ⟨value, hprod, hcons⟩ := htested
    rw [show ((s.shared.dev.mem.view consumer).seen .prod) = _ from hseen] at hprod
    have hcount := hok.newest_sub hprod hcons
    rwa [BitVec.sub_self] at hcount
  · cases hwq

theorem WeakWaitInv.sleeping_writer (hinv : WeakWaitInv producer consumer peak s)
    (hsleep : Sleeping s producer .write) (howes : ¬(s.locals consumer).owes .write = true) :
    s.shared.dev.received.length + s.shared.dev.numBuffers ≤ s.shared.dev.sent.length := by
  obtain ⟨p, c, hok, -⟩ := hinv.ring.parties
  have hseen := (hinv.watched .write).seen_eq hinv.ring.valid hsleep.queued howes
  have htested := hinv.tested producer
  rcases asleepOn_eq_some hsleep.asleep with ⟨hwq, -⟩ | ⟨-, nonblock, u, hhere⟩
  · cases hwq
  · rw [hhere] at htested
    obtain ⟨prod, cons, hprod, hcons, hfull⟩ := htested
    rw [show ((s.shared.dev.mem.view producer).seen .cons) = _ from hseen] at hcons
    have hcount := hok.newest_sub hprod hcons
    simp only [ringOf] at hcount
    omega

-- Whoever owes a wake-up can go on: it waits for nobody.
theorem weakSpsc_of_owes {me : Nat} {dev : WeakDev} {here : WeakLocal} {wq : Wq}
    (hvalid : dev.mem.Valid) (h : here.owes wq = true) :
    ∃ choice, (weakSpsc me choice here dev).isSome = true := by
  cases here with
  | idle | done => cases h
  | read nonblock u pc =>
      cases pc <;> first | cases h | skip
      case bytes f | msgs f => exact ⟨.go, rfl⟩
      case trace f =>
        obtain ⟨message, m', -, hload⟩ := load_newest hvalid .relaxed me .prod
        refine ⟨.load ((dev.mem.history .prod).length - 1), ?_⟩
        simp only [weakSpsc, weakReadSpscStep, hload, Option.map_some, Option.isSome_some]
  | write nonblock u pc =>
      cases pc <;> first | cases h | skip
      case bytes prod | msgs prod | peak occ => exact ⟨.go, rfl⟩
      case occ prod =>
        obtain ⟨message, m', -, hload⟩ := load_newest hvalid .relaxed me .cons
        refine ⟨.load ((dev.mem.history .cons).length - 1), ?_⟩
        simp only [weakSpsc, weakWriteSpscStep, WeakDev.loads, hload, Option.map_some,
          Option.isSome_some]

theorem WeakWaitInv.step_of_owes (hinv : WeakWaitInv producer consumer peak s) {p : Nat} {wq : Wq}
    (h : (s.locals p).owes wq = true) :
    ∃ choice, (step weakWaits s ⟨p, choice⟩).isSome = true := by
  have hphase := hinv.phases p
  have hring (hhere : (s.locals p).here.owes wq = true) :
      (s.locals p).here.asleepOn = none ∧
        ∃ choice, (weakSpsc p choice (s.locals p).here s.shared.dev).isSome = true := by
    refine ⟨?_, weakSpsc_of_owes hinv.ring.valid hhere⟩
    cases hasleep : (s.locals p).here.asleepOn with
    | none => rfl
    | some other =>
        rw [owes_of_asleepOn hasleep wq] at hhere
        cases hhere
  simp only [step, Option.isSome_map]
  generalize s.locals p = thread at h hphase hring ⊢
  obtain ⟨here, phase⟩ := thread
  cases phase with
  | wake other => exact ⟨.go, rfl⟩
  | prepare other =>
      exfalso
      cases other with
      | read =>
          obtain ⟨nonblock, u, rfl⟩ := hphase
          simp [WeakWaiter.owes, WeakLocal.owes] at h
      | write =>
          obtain ⟨nonblock, u, rfl⟩ := hphase
          simp [WeakWaiter.owes, WeakLocal.owes] at h
  | running =>
      obtain ⟨hasleep, choice, hstep⟩ := hring (owes_running (Or.inl rfl) wq h)
      refine ⟨choice, ?_⟩
      simp only [weakWaits, hasleep, ringStep, Option.isSome_map]
      exact hstep
  | interrupted =>
      obtain ⟨hasleep, choice, hstep⟩ := hring (owes_running (Or.inr rfl) wq h)
      refine ⟨choice, ?_⟩
      simp only [weakWaits, interruptedStep, hasleep, ↓reduceIte, ringStep, Option.isSome_map]
      exact hstep

end Sleepers

section Runs

variable {dev : Dev} {producer consumer : Nat} {s : WeakWaitSystem}
  {acts : List (Act WeakSpscChoice)}

-- No barrier is needed between the publication of an index and the wake-up: the lock of the
-- wait queue orders them. A reader that sleeps while there is a message, or a writer that
-- sleeps while there is room, is about to be woken, and the two never sleep at once.
theorem weak_no_lost_wakeup (hdev : Wellformed dev) (hmode : dev.mode = .SPSC)
    (hempty : queue dev = []) (hne : producer ≠ consumer)
    (hreq : Along weakWaits (WeakWaitPair producer consumer) (weakWaitBoot dev) acts)
    (hrun : run weakWaits (weakWaitBoot dev) acts = some s) :
    (Sleeping s consumer .read → s.shared.dev.received.length < s.shared.dev.sent.length →
      (s.locals producer).owes .read = true ∧
        ∃ choice, (step weakWaits s ⟨producer, choice⟩).isSome = true) ∧
    (Sleeping s producer .write →
      s.shared.dev.sent.length < s.shared.dev.received.length + s.shared.dev.numBuffers →
      (s.locals consumer).owes .write = true ∧
        ∃ choice, (step weakWaits s ⟨consumer, choice⟩).isSome = true) ∧
    ¬(Sleeping s consumer .read ∧ Sleeping s producer .write) := by
  have hinv : WeakWaitInv producer consumer dev.peakCount s :=
    run_invariant (fun _ _ _ hinv hok h => weakWaitInv_step hinv hok h)
      (weakWaitInv_boot hdev hmode hempty hne) hreq hrun
  refine ⟨fun hsleep hmore => ?_, fun hsleep hroom => ?_, fun ⟨hreader, hwriter⟩ => ?_⟩
  · have howes : (s.locals producer).owes .read = true := by
      by_contra hnot
      have hcount := hinv.sleeping_reader hsleep hnot
      omega
    exact ⟨howes, hinv.step_of_owes howes⟩
  · have howes : (s.locals consumer).owes .write = true := by
      by_contra hnot
      have hcount := hinv.sleeping_writer hsleep hnot
      omega
    exact ⟨howes, hinv.step_of_owes howes⟩
  · have hempty := hinv.sleeping_reader hreader (by simp [hwriter.owes])
    have hfull := hinv.sleeping_writer hwriter (by simp [hreader.owes])
    obtain ⟨p, c, hok, -⟩ := hinv.ring.parties
    have hpos : 0 < s.shared.dev.numBuffers := hok.num_pos
    omega

end Runs

-- The reader puts itself on the queue, the writer publishes a message, and the reader still
-- reads the old index when it tests its condition again. It sleeps, and the writer is yet to
-- come to the wake-up.
def staleSleep : List (Act WeakSpscChoice) :=
  [⟨1, .read false ⟨4, 4⟩⟩, ⟨1, .load 0⟩, ⟨1, .load 0⟩, ⟨1, .go⟩, ⟨1, .load 0⟩, ⟨1, .load 0⟩,
    ⟨1, .go⟩, ⟨1, .go⟩] ++
    [⟨0, .write true ⟨[7, 8, 9], 3⟩⟩, ⟨0, .go⟩, ⟨0, .load 0⟩, ⟨0, .load 0⟩, ⟨0, .load 0⟩] ++
    List.replicate 5 ⟨0, .go⟩ ++ [⟨1, .load 0⟩, ⟨1, .load 0⟩]

theorem weak_no_lost_wakeup_staleSleep :
    ∃ s, run weakWaits (weakWaitBoot wrapDev) staleSleep = some s ∧ Sleeping s 1 .read ∧
      s.shared.dev.received.length < s.shared.dev.sent.length ∧
      (s.locals 0).owes .read = true ∧
      ∃ choice, (step weakWaits s ⟨0, choice⟩).isSome = true := by
  have hreq : Along weakWaits (WeakWaitPair 0 1) (weakWaitBoot wrapDev) staleSleep := by
    apply along_of_mem
    intro s
    simp [staleSleep, WeakWaitPair, WeakPair]
  obtain ⟨s, hrun, hend⟩ := Option.map_eq_some_iff.mp
    (show (run weakWaits (weakWaitBoot wrapDev) staleSleep).map
      (fun s => ((s.locals 1).phase, (s.locals 1).here.asleepOn, s.shared.readWq.waiters,
        s.shared.dev.received.length, s.shared.dev.sent.length)) =
        some (.running, some .read, [1], 0, 1) from rfl)
  simp only [Prod.mk.injEq] at hend
  obtain ⟨hphase, hasleep, hqueue, hreceived, hsent⟩ := hend
  have hsleep : Sleeping s 1 .read := by
    refine ⟨hphase, hasleep, ?_⟩
    simp [WeakWorld.queue, hqueue]
  have hmore : s.shared.dev.received.length < s.shared.dev.sent.length := by omega
  exact ⟨s, hrun, hsleep, hmore, (weak_no_lost_wakeup wrapDev_wellformed rfl rfl (by decide) hreq
    hrun).1 hsleep hmore⟩

end Kbuf
