import Kbuf.Machine

namespace Kbuf

open Interleaving

section Wait

-- What wait_event_interruptible can do next, with the test that led there.
inductive WaitMove (wq : Wq) (cond : Dev → Bool) (me : Nat) (w : World) :
    WaitPc → World → WaitNext → Prop
  | firstWoken (h : cond w.dev = true) : WaitMove wq cond me w .first w .woken
  | firstFalse (h : cond w.dev = false) : WaitMove wq cond me w .first w (.wait .prepare)
  | prepare : WaitMove wq cond me w .prepare (w.enqueue wq me) (.wait .test)
  | signalWoken (h : cond w.dev = true) :
      WaitMove wq cond me w .prepare (w.dequeue wq me) .woken
  | signal (h : cond w.dev = false) :
      WaitMove wq cond me w .prepare (w.dequeue wq me) .interrupted
  | testWoken (h : cond w.dev = true) : WaitMove wq cond me w .test (w.dequeue wq me) .woken
  | testFalse (h : cond w.dev = false) : WaitMove wq cond me w .test w (.wait .asleep)
  | awake (h : me ∉ w.waiters wq) : WaitMove wq cond me w .asleep w (.wait .prepare)
  | spurious : WaitMove wq cond me w .asleep w (.wait .prepare)

variable {wq : Wq} {cond : Dev → Bool} {me : Nat} {w w' : World}

theorem waitEvent_move {pc : WaitPc} {choice : Choice} {next : WaitNext}
    (h : waitEvent wq cond me w pc choice = some (w', next)) :
    WaitMove wq cond me w pc w' next := by
  cases pc with
  | first =>
      cases choice <;> simp only [waitEvent, Option.some.injEq, Prod.mk.injEq, reduceCtorEq] at h
      obtain ⟨rfl, rfl⟩ := h
      cases hc : cond w.dev with
      | true => exact .firstWoken hc
      | false => exact .firstFalse hc
  | prepare =>
      cases choice <;> simp only [waitEvent, Option.some.injEq, Prod.mk.injEq, reduceCtorEq] at h
      · obtain ⟨rfl, rfl⟩ := h
        exact .prepare
      · obtain ⟨rfl, rfl⟩ := h
        cases hc : cond w.dev with
        | true => exact .signalWoken hc
        | false => exact .signal hc
  | test =>
      cases choice <;> simp only [waitEvent, reduceCtorEq] at h
      cases hc : cond w.dev with
      | true =>
          simp only [hc, ite_true, Option.some.injEq, Prod.mk.injEq] at h
          obtain ⟨rfl, rfl⟩ := h
          exact .testWoken hc
      | false =>
          simp only [hc, Bool.false_eq_true, ite_false, Option.some.injEq, Prod.mk.injEq] at h
          obtain ⟨rfl, rfl⟩ := h
          exact .testFalse hc
  | asleep =>
      cases choice <;> simp only [waitEvent, reduceCtorEq] at h
      · split at h
        · cases h
        · rename_i hm
          obtain ⟨rfl, rfl⟩ := Prod.mk.inj (Option.some.inj h)
          exact .awake hm
      · obtain ⟨rfl, rfl⟩ := Prod.mk.inj (Option.some.inj h)
        exact .spurious

-- Waiting changes nothing but the caller's place on the wait queue.
theorem WaitMove.frame {pc : WaitPc} {next : WaitNext} (h : WaitMove wq cond me w pc w' next) :
    ∃ waiters, w' = w.setWaiters waiters wq := by
  have hsame : w = w.setWaiters (w.waiters wq) wq := by cases wq <;> rfl
  cases h with
  | firstWoken | firstFalse | testFalse | awake | spurious => exact ⟨_, hsame⟩
  | prepare | signalWoken | signal | testWoken => exact ⟨_, rfl⟩

theorem WaitMove.lock_eq {pc : WaitPc} {next : WaitNext} (h : WaitMove wq cond me w pc w' next) :
    w'.lock = w.lock := by
  obtain ⟨waiters, rfl⟩ := h.frame
  cases wq <;> rfl

theorem WaitMove.dev_eq {pc : WaitPc} {next : WaitNext} (h : WaitMove wq cond me w pc w' next) :
    w'.dev = w.dev := by
  obtain ⟨waiters, rfl⟩ := h.frame
  cases wq <;> rfl

theorem WaitMove.log_eq {pc : WaitPc} {next : WaitNext} (h : WaitMove wq cond me w pc w' next) :
    w'.log = w.log := by
  obtain ⟨waiters, rfl⟩ := h.frame
  cases wq <;> rfl

-- Waiting puts nobody else on a queue.
theorem WaitMove.waiters_sub {pc : WaitPc} {next : WaitNext} {side : Wq} {p : Nat}
    (h : WaitMove wq cond me w pc w' next) (hp : p ≠ me) (hm : p ∈ w'.waiters side) :
    p ∈ w.waiters side := by
  cases h with
  | firstWoken | firstFalse | testFalse | awake | spurious => exact hm
  | prepare =>
      cases wq <;> cases side <;>
        simp_all [World.enqueue, World.setWaiters, World.waiters, List.mem_insert_iff]
  | signalWoken | signal | testWoken =>
      cases wq <;> cases side <;>
        simp_all [World.dequeue, World.setWaiters, World.waiters, List.mem_filter]

end Wait

section Lock

theorem acquire_eq_some {w w' : World} {me : Nat} (h : w.acquire me = some w') :
    w.lock = none ∧ w' = { w with lock := some me } := by
  unfold World.acquire at h
  split at h
  · rename_i hl
    exact ⟨hl, (Option.some.inj h).symm⟩
  · cases h

end Lock

section Blocking

inductive ReadMove (nonblock : Bool) (u : UserRead) (me : Nat) (w : World) :
    ReadPc → World → Next ReadPc → Prop
  | lock (h : w.lock = none) :
      ReadMove nonblock u me w .lock { w with lock := some me } (.to .loop)
  | lockSignal : ReadMove nonblock u me w .lock w (.ret (.bytes (.error .ERESTARTSYS) []))
  | again (he : ringIsEmpty w.dev = true) (hn : nonblock = true) :
      ReadMove nonblock u me w .loop w (.to (.unlock (.bytes (.error .EAGAIN) [])))
  | sleep (he : ringIsEmpty w.dev = true) (hn : nonblock = false) :
      ReadMove nonblock u me w .loop
        { w with dev := { w.dev with readSleeps := w.dev.readSleeps + 1 } } (.to .unlockSleep)
  | ready (he : ringIsEmpty w.dev = false) : ReadMove nonblock u me w .loop w (.to .consume)
  | unlockSleep : ReadMove nonblock u me w .unlockSleep w.release (.to (.wait .first))
  | wait {pc : WaitPc} {w' : World} {next : WaitNext}
      (h : WaitMove .read (fun dev => !ringIsEmpty dev) me w pc w' next) :
      ReadMove nonblock u me w (.wait pc) w' (ReadPc.afterWait next)
  | consume :
      ReadMove nonblock u me w .consume (consumeStep w me u).1
        (.to (.unlock (consumeStep w me u).2))
  | unlockOk {ret : Ret} (h : ret.ok = true) :
      ReadMove nonblock u me w (.unlock ret) w.release (.to (.wake ret))
  | unlockError {ret : Ret} (h : ret.ok = false) :
      ReadMove nonblock u me w (.unlock ret) w.release (.ret ret)
  | wake {ret : Ret} : ReadMove nonblock u me w (.wake ret) (w.wakeUp .write) (.ret ret)

theorem readBlockingStep_move {nonblock : Bool} {u : UserRead} {me : Nat} {w w' : World}
    {pc : ReadPc} {choice : Choice} {next : Next ReadPc}
    (h : readBlockingStep nonblock u me w pc choice = some (w', next)) :
    ReadMove nonblock u me w pc w' next := by
  cases pc with
  | lock =>
      cases choice <;> simp only [readBlockingStep, reduceCtorEq] at h
      · obtain ⟨v, hv, hnext⟩ := Option.map_eq_some_iff.mp h
        obtain ⟨hl, rfl⟩ := acquire_eq_some hv
        obtain ⟨rfl, rfl⟩ := Prod.mk.inj hnext
        exact .lock hl
      · obtain ⟨rfl, rfl⟩ := Prod.mk.inj (Option.some.inj h)
        exact .lockSignal
  | loop =>
      cases choice <;> simp only [readBlockingStep, reduceCtorEq] at h
      split at h
      · rename_i he
        split at h
        · rename_i hn
          obtain ⟨rfl, rfl⟩ := Prod.mk.inj (Option.some.inj h)
          exact .again he hn
        · rename_i hn
          obtain ⟨rfl, rfl⟩ := Prod.mk.inj (Option.some.inj h)
          exact .sleep he (Bool.eq_false_iff.mpr hn)
      · rename_i he
        obtain ⟨rfl, rfl⟩ := Prod.mk.inj (Option.some.inj h)
        exact .ready (Bool.eq_false_iff.mpr he)
  | unlockSleep =>
      cases choice <;> simp only [readBlockingStep, reduceCtorEq] at h
      obtain ⟨rfl, rfl⟩ := Prod.mk.inj (Option.some.inj h)
      exact .unlockSleep
  | wait pc =>
      simp only [readBlockingStep] at h
      obtain ⟨⟨v, out⟩, hv, hnext⟩ := Option.map_eq_some_iff.mp h
      obtain ⟨rfl, rfl⟩ := Prod.mk.inj hnext
      exact .wait (waitEvent_move hv)
  | consume =>
      cases choice <;> simp only [readBlockingStep, reduceCtorEq] at h
      obtain ⟨rfl, rfl⟩ := Prod.mk.inj (Option.some.inj h)
      exact .consume
  | unlock ret =>
      cases choice <;> simp only [readBlockingStep, reduceCtorEq] at h
      obtain ⟨rfl, rfl⟩ := Prod.mk.inj (Option.some.inj h)
      split
      · exact .unlockOk ‹_›
      · exact .unlockError (Bool.eq_false_iff.mpr ‹_›)
  | wake ret =>
      cases choice <;> simp only [readBlockingStep, reduceCtorEq] at h
      obtain ⟨rfl, rfl⟩ := Prod.mk.inj (Option.some.inj h)
      exact .wake

inductive WriteMove (nonblock : Bool) (u : UserWrite) (me : Nat) (w : World) :
    WritePc → World → Next (UserWrite × WritePc) → Prop
  | lock (h : w.lock = none) :
      WriteMove nonblock u me w .lock { w with lock := some me } (.to (u, .clamp))
  | lockSignal : WriteMove nonblock u me w .lock w (.ret (.size (.error .ERESTARTSYS)))
  | clamp : WriteMove nonblock u me w .clamp w (.to (u.clamp w.dev.bufferSize, .loop))
  | again (he : ringIsFull w.dev = true) (hn : nonblock = true) :
      WriteMove nonblock u me w .loop w (.to (u, .unlock (.size (.error .EAGAIN))))
  | sleep (he : ringIsFull w.dev = true) (hn : nonblock = false) :
      WriteMove nonblock u me w .loop
        { w with dev := { w.dev with writeSleeps := w.dev.writeSleeps + 1 } }
        (.to (u, .unlockSleep))
  | ready (he : ringIsFull w.dev = false) : WriteMove nonblock u me w .loop w (.to (u, .produce))
  | unlockSleep : WriteMove nonblock u me w .unlockSleep w.release (.to (u, .wait .first))
  | wait {pc : WaitPc} {w' : World} {next : WaitNext}
      (h : WaitMove .write (fun dev => !ringIsFull dev) me w pc w' next) :
      WriteMove nonblock u me w (.wait pc) w' (WritePc.afterWait u next)
  | relock (h : w.lock = none) :
      WriteMove nonblock u me w .relock { w with lock := some me } (.to (u, .loop))
  | relockSignal : WriteMove nonblock u me w .relock w (.ret (.size (.error .ERESTARTSYS)))
  | produce :
      WriteMove nonblock u me w .produce (produceStep w me u).1
        (.to (u, .unlock (produceStep w me u).2))
  | unlockOk {ret : Ret} (h : ret.ok = true) :
      WriteMove nonblock u me w (.unlock ret) w.release (.to (u, .wake ret))
  | unlockError {ret : Ret} (h : ret.ok = false) :
      WriteMove nonblock u me w (.unlock ret) w.release (.ret ret)
  | wake {ret : Ret} : WriteMove nonblock u me w (.wake ret) (w.wakeUp .read) (.ret ret)

theorem writeBlockingStep_move {nonblock : Bool} {u : UserWrite} {me : Nat} {w w' : World}
    {pc : WritePc} {choice : Choice} {next : Next (UserWrite × WritePc)}
    (h : writeBlockingStep nonblock u me w pc choice = some (w', next)) :
    WriteMove nonblock u me w pc w' next := by
  cases pc with
  | lock =>
      cases choice <;> simp only [writeBlockingStep, reduceCtorEq] at h
      · obtain ⟨v, hv, hnext⟩ := Option.map_eq_some_iff.mp h
        obtain ⟨hl, rfl⟩ := acquire_eq_some hv
        obtain ⟨rfl, rfl⟩ := Prod.mk.inj hnext
        exact .lock hl
      · obtain ⟨rfl, rfl⟩ := Prod.mk.inj (Option.some.inj h)
        exact .lockSignal
  | clamp =>
      cases choice <;> simp only [writeBlockingStep, reduceCtorEq] at h
      obtain ⟨rfl, rfl⟩ := Prod.mk.inj (Option.some.inj h)
      exact .clamp
  | loop =>
      cases choice <;> simp only [writeBlockingStep, reduceCtorEq] at h
      split at h
      · rename_i he
        split at h
        · rename_i hn
          obtain ⟨rfl, rfl⟩ := Prod.mk.inj (Option.some.inj h)
          exact .again he hn
        · rename_i hn
          obtain ⟨rfl, rfl⟩ := Prod.mk.inj (Option.some.inj h)
          exact .sleep he (Bool.eq_false_iff.mpr hn)
      · rename_i he
        obtain ⟨rfl, rfl⟩ := Prod.mk.inj (Option.some.inj h)
        exact .ready (Bool.eq_false_iff.mpr he)
  | unlockSleep =>
      cases choice <;> simp only [writeBlockingStep, reduceCtorEq] at h
      obtain ⟨rfl, rfl⟩ := Prod.mk.inj (Option.some.inj h)
      exact .unlockSleep
  | wait pc =>
      simp only [writeBlockingStep] at h
      obtain ⟨⟨v, out⟩, hv, hnext⟩ := Option.map_eq_some_iff.mp h
      obtain ⟨rfl, rfl⟩ := Prod.mk.inj hnext
      exact .wait (waitEvent_move hv)
  | relock =>
      cases choice <;> simp only [writeBlockingStep, reduceCtorEq] at h
      · obtain ⟨v, hv, hnext⟩ := Option.map_eq_some_iff.mp h
        obtain ⟨hl, rfl⟩ := acquire_eq_some hv
        obtain ⟨rfl, rfl⟩ := Prod.mk.inj hnext
        exact .relock hl
      · obtain ⟨rfl, rfl⟩ := Prod.mk.inj (Option.some.inj h)
        exact .relockSignal
  | produce =>
      cases choice <;> simp only [writeBlockingStep, reduceCtorEq] at h
      obtain ⟨rfl, rfl⟩ := Prod.mk.inj (Option.some.inj h)
      exact .produce
  | unlock ret =>
      cases choice <;> simp only [writeBlockingStep, reduceCtorEq] at h
      obtain ⟨rfl, rfl⟩ := Prod.mk.inj (Option.some.inj h)
      split
      · exact .unlockOk ‹_›
      · exact .unlockError (Bool.eq_false_iff.mpr ‹_›)
  | wake ret =>
      cases choice <;> simp only [writeBlockingStep, reduceCtorEq] at h
      obtain ⟨rfl, rfl⟩ := Prod.mk.inj (Option.some.inj h)
      exact .wake

end Blocking

end Kbuf
