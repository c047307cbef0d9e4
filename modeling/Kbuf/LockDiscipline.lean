import Kbuf.Wakeup

namespace Kbuf

open Interleaving

section Definitions

-- The points from which a call goes on by taking the mutex.
def Local.locks : Local → Bool
  | .readBlocking _ _ .lock => true
  | .writeBlocking _ _ .lock | .writeBlocking _ _ .relock => true
  | .resize _ (.lock _) | .smode _ (.lock _) => true
  | .reset .lock | .getstats _ .lock | .poll .lock => true
  | _ => false

-- The points from which the next step of a call is mutex_unlock.
def Local.unlocks : Local → Bool
  | .readBlocking _ _ .unlockSleep | .readBlocking _ _ (.unlock _) => true
  | .writeBlocking _ _ .unlockSleep | .writeBlocking _ _ (.unlock _) => true
  | .resize _ (.unlockBusy _) | .resize _ (.unlock _) => true
  | .smode _ (.unlock _) | .reset .unlock | .getstats _ (.unlock _) | .poll (.unlock _) => true
  | _ => false

-- Where a process is in wait_event_interruptible, and on which queue.
def Local.waitPc : Local → Option (Wq × WaitPc)
  | .readBlocking _ _ (.wait pc) => some (.read, pc)
  | .readSpsc _ _ (.wait pc) => some (.read, pc)
  | .writeBlocking _ _ (.wait pc) => some (.write, pc)
  | .writeSpsc _ _ (.wait pc) => some (.write, pc)
  | _ => none

-- Whoever is on a wait queue is in the wait that queued it, behind its first test.
def QueueInv (s : System) : Prop :=
  ∀ p side, p ∈ s.shared.waiters side → ∃ pc, (s.locals p).waitPc = some (side, pc) ∧ pc ≠ .first

end Definitions

section Steps

variable {me : Nat} {choice : Choice} {w w' : World} {here next : Local}

theorem Local.holds_of_unlocks (h : here.unlocks = true) : here.holds = true := by
  unfold Local.unlocks at h
  split at h <;> first | rfl | cases h

theorem Local.waitPc_of_holds (h : here.holds = true) : here.waitPc = none := by
  unfold Local.waitPc
  split <;> first | rfl | cases h

-- What a step does with the mutex.
inductive MutexCall (me : Nat) (w : World) (here : Local) (w' : World) : Prop
  | lock (hl : here.locks = true) (hfree : w.lock = none) (h : w'.lock = some me)
  | unlock (hu : here.unlocks = true) (h : w'.lock = none)
  | other (hu : here.unlocks = false) (h : w'.lock = w.lock)

theorem Move.mutex_call (h : Move me w choice here w' next) : MutexCall me w here w' := by
  cases h with
  | enter hidle =>
      rcases hidle with rfl | ⟨ret, rfl⟩
      · exact .other rfl rfl
      · exact .other rfl rfl
  | readSampleSpsc | readSampleBlocking | writeSampleSpsc | writeSampleBlocking =>
      exact .other rfl rfl
  | readBlocking h =>
      cases h with
      | lock hl => exact .lock rfl hl rfl
      | unlockSleep | unlockOk | unlockError => exact .unlock rfl rfl
      | wait hw => exact .other rfl hw.lock_eq
      | consume => exact .other rfl (consumeStep_lock ..)
      | lockSignal | again | sleep | ready | wake => exact .other rfl rfl
  | writeBlocking h =>
      cases h with
      | lock hl | relock hl => exact .lock rfl hl rfl
      | unlockSleep | unlockOk | unlockError => exact .unlock rfl rfl
      | wait hw => exact .other rfl hw.lock_eq
      | produce => exact .other rfl (produceStep_lock ..)
      | lockSignal | relockSignal | clamp | again | sleep | ready | wake => exact .other rfl rfl
  | readSpsc h =>
      refine .other rfl ?_
      cases h with
      | wait hw => exact hw.lock_eq
      | _ => rfl
  | writeSpsc h =>
      refine .other rfl ?_
      cases h with
      | wait hw => exact hw.lock_eq
      | _ => rfl
  | resize h =>
      cases h with
      | lock hl => exact .lock rfl hl rfl
      | unlockBusy | unlock => exact .unlock rfl rfl
      | reject | accept | nomem | alloc | busy | swap | freeNew | freeOld | wake =>
          exact .other rfl rfl
  | smode h =>
      cases h with
      | lock hl => exact .lock rfl hl rfl
      | unlock => exact .unlock rfl rfl
      | reject | accept | refuse | switch => exact .other rfl rfl
  | reset h =>
      cases h with
      | lock hl => exact .lock rfl hl rfl
      | unlock => exact .unlock rfl rfl
      | store => exact .other rfl rfl
  | getstats h =>
      cases h with
      | lock hl => exact .lock rfl hl rfl
      | unlock => exact .unlock rfl rfl
      | loadSpsc | loadBlocking | occ => exact .other rfl rfl
  | poll h =>
      cases h with
      | lock hl => exact .lock rfl hl rfl
      | unlock => exact .unlock rfl rfl
      | sampleSpsc | sampleBlocking | spscFull | test => exact .other rfl rfl

-- What a step does to the wait queues: one step of a wait, or at most a wakeup.
inductive QueueEffect (me : Nat) (w : World) (here : Local) (w' : World) (next : Local) : Prop
  | wait {wq : Wq} {cond : Dev → Bool} {pc : WaitPc} {out : WaitNext}
      (hhere : here.waitPc = some (wq, pc)) (hw : WaitMove wq cond me w pc w' out)
      (hnext : ∀ after, out = .wait after → next.waitPc = some (wq, after))
  | shrink (hhere : here.waitPc = none)
      (hsub : ∀ side p, p ∈ w'.waiters side → p ∈ w.waiters side)

theorem QueueEffect.wakeUp {wq : Wq} (hhere : here.waitPc = none) :
    QueueEffect me w here (w.wakeUp wq) next := by
  refine .shrink hhere fun side p hp => ?_
  cases wq <;> cases side <;> simp_all [World.wakeUp, World.setWaiters, World.waiters]

theorem QueueEffect.keep (hhere : here.waitPc = none)
    (h : ∀ side, w'.waiters side = w.waiters side) : QueueEffect me w here w' next :=
  .shrink hhere fun side _ hp => by rwa [h side] at hp

theorem Move.queue_effect (h : Move me w choice here w' next) :
    QueueEffect me w here w' next := by
  cases h with
  | enter hidle =>
      rcases hidle with rfl | ⟨ret, rfl⟩
      · exact .keep rfl fun _ => rfl
      · exact .keep rfl fun _ => rfl
  | readSampleSpsc | readSampleBlocking | writeSampleSpsc | writeSampleBlocking =>
      exact .keep rfl fun _ => rfl
  | readBlocking h =>
      cases h with
      | wait hw => exact .wait rfl hw (by rintro _ rfl; rfl)
      | consume => exact .keep rfl (consumeStep_waiters w me _)
      | wake => exact .wakeUp rfl
      | lock | lockSignal | again | sleep | ready | unlockSleep | unlockOk | unlockError =>
          exact .keep rfl fun side => by cases side <;> rfl
  | writeBlocking h =>
      cases h with
      | wait hw => exact .wait rfl hw (by rintro _ rfl; rfl)
      | produce => exact .keep rfl (produceStep_waiters w me _)
      | wake => exact .wakeUp rfl
      | lock | lockSignal | clamp | again | sleep | ready | unlockSleep | relock | relockSignal
      | unlockOk | unlockError => exact .keep rfl fun side => by cases side <;> rfl
  | readSpsc h =>
      cases h with
      | wait hw => exact .wait rfl hw (by rintro _ rfl; rfl)
      | wake => exact .wakeUp rfl
      | _ => exact .keep rfl fun side => by cases side <;> rfl
  | writeSpsc h =>
      cases h with
      | wait hw => exact .wait rfl hw (by rintro _ rfl; rfl)
      | wake => exact .wakeUp rfl
      | _ => exact .keep rfl fun side => by cases side <;> rfl
  | resize h =>
      cases h with
      | wake => exact .wakeUp rfl
      | _ => exact .keep rfl fun side => by cases side <;> rfl
  | smode h | reset h | getstats h | poll h =>
      cases h with
      | _ => exact .keep rfl fun side => by cases side <;> rfl

-- A wait that goes on leaves its caller where `QueueInv` wants it, one that ends leaves
-- the queue.
theorem WaitMove.queued {wq side : Wq} {cond : Dev → Bool} {pc : WaitPc} {out : WaitNext}
    (hw : WaitMove wq cond me w pc w' out) (hpc : me ∈ w.waiters side → side = wq ∧ pc ≠ .first)
    (hm : me ∈ w'.waiters side) : side = wq ∧ ∃ after, out = .wait after ∧ after ≠ .first := by
  cases hw with
  | firstWoken | firstFalse => exact absurd rfl (hpc hm).2
  | testFalse | awake | spurious => exact ⟨(hpc hm).1, _, rfl, by simp⟩
  | prepare =>
      refine ⟨?_, _, rfl, by simp⟩
      by_contra hne
      have hold : me ∈ w.waiters side := by
        cases wq <;> cases side <;> first | exact hm | exact absurd rfl hne
      exact hne (hpc hold).1
  | signalWoken | signal | testWoken =>
      exfalso
      by_cases hside : side = wq
      · subst hside
        cases side <;> simp [World.dequeue, World.setWaiters, World.waiters] at hm
      · have hold : me ∈ w.waiters side := by
          cases wq <;> cases side <;> first | exact hm | exact absurd rfl hside
        exact hside (hpc hold).1

end Steps

section Runs

variable {dev : Dev} {acts : List (Act Choice)} {s t : System}

theorem queueInv_step {act : Act Choice} (hinv : QueueInv s) (h : step driver s act = some t) :
    QueueInv t := by
  obtain ⟨w, next, hmove, rfl⟩ := step_move h
  intro p side hp
  rw [State.put_shared] at hp
  by_cases hme : p = act.pid
  · subst hme
    rw [State.put_locals_self]
    cases hmove.queue_effect with
    | @wait wq _ pc _ hhere hw hnext =>
        have hpc (hm : act.pid ∈ s.shared.waiters side) : side = wq ∧ pc ≠ .first := by
          obtain ⟨_, heq, hne⟩ := hinv act.pid side hm
          rw [hhere] at heq
          obtain ⟨rfl, rfl⟩ := Prod.mk.inj (Option.some.inj heq)
          exact ⟨rfl, hne⟩
        obtain ⟨rfl, after, rfl, hne⟩ := hw.queued hpc hp
        exact ⟨after, hnext after rfl, hne⟩
    | shrink hhere hsub =>
        obtain ⟨pc, heq, -⟩ := hinv act.pid side (hsub side _ hp)
        rw [hhere] at heq
        cases heq
  · rw [State.put_locals_of_ne _ _ hme]
    apply hinv p side
    cases hmove.queue_effect with
    | wait _ hw _ => exact hw.waiters_sub hme hp
    | shrink _ hsub => exact hsub side p hp

theorem queueInv_boot (dev : Dev) : QueueInv (boot dev) := by
  intro p side hp
  cases side <;> cases hp

theorem LockInv.mutex_step {act : Act Choice} (hinv : LockInv s)
    (h : step driver s act = some t) :
    t.shared.lock = s.shared.lock ∧ (s.locals act.pid).unlocks = false ∨
      (s.locals act.pid).locks = true ∧ s.shared.lock = none ∧
        t.shared.lock = some act.pid ∨
      (s.locals act.pid).unlocks = true ∧ s.shared.lock = some act.pid ∧
        t.shared.lock = none := by
  obtain ⟨w, next, hmove, rfl⟩ := step_move h
  cases hmove.mutex_call with
  | lock hl hfree hw => exact Or.inr (Or.inl ⟨hl, hfree, hw⟩)
  | unlock hu hw =>
      have hheld := (hinv act.pid).mp (Local.holds_of_unlocks hu)
      exact Or.inr (Or.inr ⟨hu, hheld, hw⟩)
  | other hu hw => exact Or.inl ⟨hw, hu⟩

-- The mutex in every reachable state: one process at most is inside a critical section,
-- it holds the mutex and waits for nothing, nobody else reaches an unlock, and a call that
-- has returned holds nothing. The last part says how the next step can use the mutex.
theorem lock_discipline (hrun : run driver (boot dev) acts = some s) :
    (∀ p q, (s.locals p).holds = true → (s.locals q).holds = true → p = q) ∧
    (∀ p, (s.locals p).holds = true ↔ s.shared.lock = some p) ∧
    (∀ p, s.shared.lock = some p →
      (s.locals p).waitPc = none ∧ ∀ side, p ∉ s.shared.waiters side) ∧
    (∀ p, (s.locals p).unlocks = true → s.shared.lock = some p) ∧
    (∀ p ret, s.locals p = .done ret → s.shared.lock ≠ some p) ∧
    ∀ act t, step driver s act = some t →
      t.shared.lock = s.shared.lock ∧ (s.locals act.pid).unlocks = false ∨
        (s.locals act.pid).locks = true ∧ s.shared.lock = none ∧
          t.shared.lock = some act.pid ∨
        (s.locals act.pid).unlocks = true ∧ s.shared.lock = some act.pid ∧
          t.shared.lock = none := by
  have hlock : LockInv s :=
    run_invariant (fun _ _ _ hinv _ h => lockInv_step hinv h) (lockInv_boot dev)
      (along_of_mem fun _ _ _ => trivial) hrun
  have hqueue : QueueInv s :=
    run_invariant (fun _ _ _ hinv _ h => queueInv_step hinv h) (queueInv_boot dev)
      (along_of_mem fun _ _ _ => trivial) hrun
  refine ⟨fun p q => hlock.eq_of_holds, hlock, fun p hp => ?_, fun p hu => ?_, ?_, ?_⟩
  · have hwait := Local.waitPc_of_holds ((hlock p).mpr hp)
    refine ⟨hwait, fun side hm => ?_⟩
    obtain ⟨pc, heq, -⟩ := hqueue p side hm
    rw [hwait] at heq
    cases heq
  · exact (hlock p).mp (Local.holds_of_unlocks hu)
  · intro p ret hdone hp
    have hholds := (hlock p).mpr hp
    rw [hdone] at hholds
    cases hholds
  · intro act t h
    exact hlock.mutex_step h

end Runs

-- A reader is asleep and a poll waits for the mutex while a writer is about to unlock it.
def crowdedMutex : List (Act Choice) := sleepyReader ++ ⟨2, .start .poll⟩ :: proceed 2 1

theorem lock_discipline_crowdedMutex :
    ∃ s, run driver (boot (emptyDev .BLOCKING 1 2)) crowdedMutex = some s ∧
      s.shared.waiters .read = [1] ∧ (s.locals 2).locks = true ∧
      (s.locals 0).unlocks = true ∧ s.shared.lock = some 0 := by
  obtain ⟨s, hrun, hend⟩ := Option.map_eq_some_iff.mp
    (show (run driver (boot (emptyDev .BLOCKING 1 2)) crowdedMutex).map (fun s =>
      (s.shared.waiters .read, (s.locals 2).locks, (s.locals 0).unlocks)) =
        some ([1], true, true) from rfl)
  simp only [Prod.mk.injEq] at hend
  obtain ⟨hwaiters, hlocks, hunlocks⟩ := hend
  obtain ⟨-, -, -, hheld, -⟩ := lock_discipline hrun
  exact ⟨s, hrun, hwaiters, hlocks, hunlocks, hheld 0 hunlocks⟩

end Kbuf
