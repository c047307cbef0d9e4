import Kbuf.Weak.Wait

namespace Kbuf

open Interleaving ReleaseAcquire

section Definitions

-- A thread that has published an index and has not yet woken the queue behind it
def WeakLocal.owes (wq : Wq) : WeakLocal → Bool
  | .read _ _ (.bytes _) | .read _ _ (.msgs _) | .read _ _ (.trace _) => wq = .write
  | .write _ _ (.bytes _) | .write _ _ (.msgs _) | .write _ _ (.occ _) | .write _ _ (.peak _) =>
      wq = .read
  | _ => false

def WeakWaiter.owes (wq : Wq) (thread : WeakWaiter) : Bool :=
  thread.here.owes wq || thread.phase = .wake wq

abbrev SpscMemory := Memory SpscIndex Nat (BitVec 32) Slot

-- A condition that was found false is one about the last store that the thread has seen of
-- the other side's index, and about the newest one to its own.
def WeakLocal.Tested (numBuffers : Nat) (m : SpscMemory) (me : Nat) : WeakLocal → Prop
  | .read _ _ (.testCons prod) => Stored m .prod ((m.view me).seen .prod) prod
  | .read _ _ .asleep =>
      ∃ value, Stored m .prod ((m.view me).seen .prod) value ∧ Stored m .cons (m.newest .cons) value
  | .write _ _ (.testCons prod) => Stored m .prod (m.newest .prod) prod
  | .write _ _ .asleep =>
      ∃ prod cons, Stored m .prod (m.newest .prod) prod ∧
        Stored m .cons ((m.view me).seen .cons) cons ∧ numBuffers ≤ (prod - cons).toNat
  | _ => True

end Definitions

section Ring

-- What a step of the ring does to the memory: it publishes `index`, after which `wq` has to
-- be woken, or it stores to no index at all.
structure RingStep (me : Nat) (index : SpscIndex) (wq : Wq) (dev dev' : WeakDev)
    (next : WeakLocal) : Prop where
  num : dev'.numBuffers = dev.numBuffers
  mem : Storeless me dev.mem dev'.mem ∨
    ∃ value, dev'.mem = dev.mem.store .release me index value ∧ next.owes wq = true
  tested : next.Tested dev.numBuffers dev'.mem me

variable {me : Nat} {dev dev' : WeakDev} {nonblock : Bool} {next : WeakLocal}
  {choice : WeakSpscChoice}

theorem RingStep.load {index l : SpscIndex} {wq : Wq} {order : LoadOrder} {i : Nat}
    {value : BitVec 32} {mem : SpscMemory} (hload : dev.mem.load order me l i = some (value, mem))
    (htested : next.Tested dev.numBuffers mem me) :
    RingStep me index wq dev { dev with mem := mem } next :=
  ⟨rfl, Or.inl (storeless_load hload), htested⟩

theorem RingStep.storeless {index : SpscIndex} {wq : Wq}
    (hnum : dev'.numBuffers = dev.numBuffers) (hmem : Storeless me dev.mem dev'.mem)
    (htested : next.Tested dev.numBuffers dev'.mem me) : RingStep me index wq dev dev' next :=
  ⟨hnum, Or.inl hmem, htested⟩

-- kbuf_read_spsc tests its condition on the last `prod_idx` it has seen and on its own
-- `cons_idx`, which is never stale.
theorem weakReadSpscStep_ring {u : UserRead} {pc : WeakReadPc} (hdated : Dated dev.mem)
    (hown : (dev.mem.view me).seen .cons + 1 = (dev.mem.history .cons).length)
    (htested : (WeakLocal.read nonblock u pc).Tested dev.numBuffers dev.mem me)
    (h : weakReadSpscStep me nonblock u dev pc choice = some (dev', next)) :
    RingStep me .cons .write dev dev' next := by
  cases pc <;> cases choice <;> simp only [weakReadSpscStep, reduceCtorEq] at h
  case empty.load i =>
    obtain ⟨prod, mem, hload, rfl, rfl⟩ := loads_eq_some h
    exact .load hload trivial
  case emptyCons.load prod i =>
    obtain ⟨cons, mem, hload, rfl, rfl⟩ := loads_eq_some h
    refine .load hload ?_
    by_cases hempty : prod = cons
    · rw [if_pos hempty]
      by_cases hnb : nonblock = true
      · rw [if_pos hnb]
        trivial
      · rw [if_neg hnb]
        trivial
    · rw [if_neg hempty]
      trivial
  case test.load i =>
    obtain ⟨prod, mem, hload, rfl, rfl⟩ := loads_eq_some h
    exact .load hload (load_stored hdated hload)
  case testCons.load prod i =>
    obtain ⟨cons, mem, hload, rfl, rfl⟩ := loads_eq_some h
    refine .load hload ?_
    by_cases hempty : prod = cons
    · subst hempty
      rw [if_pos rfl]
      have hsame := load_history hload
      have hnewest := load_stored_newest hown hload
      refine ⟨prod, ?_, ?_⟩
      · rw [load_seen_of_ne hload (by decide)]
        exact Stored.of_history_eq htested (congrFun hsame _)
      · rw [Memory.newest, hsame]
        exact hnewest.of_history_eq (congrFun hsame _)
    · rw [if_neg hempty]
      trivial
  case consume.load i =>
    obtain ⟨cons, mem, hload, rfl, rfl⟩ := loads_eq_some h
    exact .load hload trivial
  case len.go cons =>
    obtain ⟨rfl, rfl⟩ := Prod.mk.inj (Option.some.inj h)
    exact .storeless rfl (storeless_touch ..) trivial
  case copy.go f =>
    by_cases hmore : f.out.length < f.len
    · rw [if_pos hmore] at h
      by_cases hroom : f.out.length < u.room
      · rw [if_pos hroom] at h
        obtain ⟨rfl, rfl⟩ := Prod.mk.inj (Option.some.inj h)
        exact .storeless rfl (storeless_touch ..) trivial
      · rw [if_neg hroom] at h
        obtain ⟨rfl, rfl⟩ := Prod.mk.inj (Option.some.inj h)
        exact .storeless rfl (.refl ..) trivial
    · rw [if_neg hmore] at h
      obtain ⟨rfl, rfl⟩ := Prod.mk.inj (Option.some.inj h)
      exact .storeless rfl (.refl ..) trivial
  case publish.go f =>
    obtain ⟨rfl, rfl⟩ := Prod.mk.inj (Option.some.inj h)
    exact ⟨rfl, Or.inr ⟨_, rfl, rfl⟩, trivial⟩
  case trace.load f i =>
    obtain ⟨⟨prod, mem⟩, hload, heq⟩ := Option.map_eq_some_iff.mp h
    obtain ⟨rfl, rfl⟩ := Prod.mk.inj heq
    exact .storeless rfl (storeless_load hload) trivial
  all_goals
    obtain ⟨rfl, rfl⟩ := Prod.mk.inj (Option.some.inj h)
    exact .storeless rfl (.refl ..) trivial

-- kbuf_write_spsc tests its condition on its own `prod_idx` and on the last `cons_idx` it
-- has seen.
theorem weakWriteSpscStep_ring {u : UserWrite} {pc : WeakWritePc} (hdated : Dated dev.mem)
    (hown : (dev.mem.view me).seen .prod + 1 = (dev.mem.history .prod).length)
    (htested : (WeakLocal.write nonblock u pc).Tested dev.numBuffers dev.mem me)
    (h : weakWriteSpscStep me nonblock u dev pc choice = some (dev', next)) :
    RingStep me .prod .read dev dev' next := by
  cases pc <;> cases choice <;> simp only [weakWriteSpscStep, reduceCtorEq] at h
  case full.load i =>
    obtain ⟨prod, mem, hload, rfl, rfl⟩ := loads_eq_some h
    exact .load hload trivial
  case fullCons.load prod i =>
    obtain ⟨cons, mem, hload, rfl, rfl⟩ := loads_eq_some h
    refine .load hload ?_
    by_cases hfull : dev.numBuffers ≤ (prod - cons).toNat
    · rw [if_pos hfull]
      by_cases hnb : nonblock = true
      · rw [if_pos hnb]
        trivial
      · rw [if_neg hnb]
        trivial
    · rw [if_neg hfull]
      trivial
  case test.load i =>
    obtain ⟨prod, mem, hload, rfl, rfl⟩ := loads_eq_some h
    refine .load hload ?_
    have hsame := load_history hload
    have hnewest := load_stored_newest hown hload
    change Stored mem .prod (mem.newest .prod) prod
    rw [Memory.newest, hsame]
    exact hnewest.of_history_eq (congrFun hsame _)
  case testCons.load prod i =>
    obtain ⟨cons, mem, hload, rfl, rfl⟩ := loads_eq_some h
    refine .load hload ?_
    by_cases hfull : dev.numBuffers ≤ (prod - cons).toNat
    · rw [if_pos hfull]
      have hsame := load_history hload
      refine ⟨prod, cons, ?_, load_stored hdated hload, hfull⟩
      rw [Memory.newest, hsame]
      exact Stored.of_history_eq htested (congrFun hsame _)
    · rw [if_neg hfull]
      trivial
  case produce.load i =>
    obtain ⟨prod, mem, hload, rfl, rfl⟩ := loads_eq_some h
    exact .load hload trivial
  case copy.go prod i =>
    by_cases hmore : i < u.count
    · rw [if_pos hmore] at h
      obtain ⟨rfl, rfl⟩ := Prod.mk.inj (Option.some.inj h)
      exact .storeless rfl (storeless_writeCell ..) trivial
    · rw [if_neg hmore] at h
      by_cases hfault : u.ubuf.length < u.count
      · rw [if_pos hfault] at h
        obtain ⟨rfl, rfl⟩ := Prod.mk.inj (Option.some.inj h)
        exact .storeless rfl (.refl ..) trivial
      · rw [if_neg hfault] at h
        obtain ⟨rfl, rfl⟩ := Prod.mk.inj (Option.some.inj h)
        exact .storeless rfl (.refl ..) trivial
  case setLen.go prod =>
    obtain ⟨rfl, rfl⟩ := Prod.mk.inj (Option.some.inj h)
    exact .storeless rfl (storeless_writeCell ..) trivial
  case publish.go prod =>
    obtain ⟨rfl, rfl⟩ := Prod.mk.inj (Option.some.inj h)
    exact ⟨rfl, Or.inr ⟨_, rfl, rfl⟩, trivial⟩
  case occ.load prod i =>
    obtain ⟨cons, mem, hload, rfl, rfl⟩ := loads_eq_some h
    exact .storeless rfl (storeless_load hload) trivial
  all_goals
    obtain ⟨rfl, rfl⟩ := Prod.mk.inj (Option.some.inj h)
    exact .storeless rfl (.refl ..) trivial

-- The debt is kept until the call of the ring returns.
theorem owes_ring {here : WeakLocal} {wq : Wq}
    (h : weakSpsc me choice here dev = some (dev', next)) (howes : here.owes wq = true) :
    next.owes wq = true ∨ here.returning = some wq := by
  cases here with
  | idle | done => cases howes
  | read nonblock u pc =>
      cases pc <;> first | cases howes | skip
      case bytes f | msgs f =>
        cases choice <;> simp only [weakSpsc, weakReadSpscStep, reduceCtorEq] at h
        obtain ⟨rfl, rfl⟩ := Prod.mk.inj (Option.some.inj h)
        exact Or.inl howes
      case trace f =>
        simp only [WeakLocal.owes, decide_eq_true_eq] at howes
        exact Or.inr (congrArg some howes.symm)
  | write nonblock u pc =>
      cases pc <;> first | cases howes | skip
      case bytes prod | msgs prod =>
        cases choice <;> simp only [weakSpsc, weakWriteSpscStep, reduceCtorEq] at h
        obtain ⟨rfl, rfl⟩ := Prod.mk.inj (Option.some.inj h)
        exact Or.inl howes
      case occ prod =>
        cases choice <;> simp only [weakSpsc, weakWriteSpscStep, reduceCtorEq] at h
        obtain ⟨cons, mem, -, -, rfl⟩ := loads_eq_some h
        exact Or.inl howes
      case peak occ =>
        simp only [WeakLocal.owes, decide_eq_true_eq] at howes
        exact Or.inr (congrArg some howes.symm)

end Ring

section Moves

variable {me : Nat} {w w' : WeakWorld} {choice : WeakSpscChoice} {thread next : WeakWaiter}

-- What one step can do.
inductive WeakWaitMove (me : Nat) (w : WeakWorld) :
    WeakSpscChoice → WeakWaiter → WeakWorld → WeakWaiter → Prop
  | prepare {wq : Wq} {here : WeakLocal} :
      WeakWaitMove me w .go ⟨here, .prepare wq⟩ (w.enqueue wq me) ⟨here, .running⟩
  | prepareSignal {wq : Wq} {here : WeakLocal} :
      WeakWaitMove me w .signal ⟨here, .prepare wq⟩ (w.dequeue wq me) ⟨here, .interrupted⟩
  | wake {wq : Wq} {here : WeakLocal} :
      WeakWaitMove me w .go ⟨here, .wake wq⟩ (w.wakeUp wq me) ⟨here, .running⟩
  | schedule {wq : Wq} {choice : WeakSpscChoice} {here after : WeakLocal} {dev : WeakDev}
      (hasleep : here.asleepOn = some wq)
      (hchoice : choice = .signal ∨ choice = .go ∧ me ∉ (w.queue wq).waiters)
      (h : weakSpsc me .go here w.dev = some (dev, after)) :
      WeakWaitMove me w choice ⟨here, .running⟩ { w with dev := dev } ⟨after, .prepare wq⟩
  | ring {choice : WeakSpscChoice} {here after : WeakLocal} {phase phase' : WaitPhase}
      {dev : WeakDev} (hphase : phase = .running ∨ phase = .interrupted)
      (hphase' : phase' = .running ∨ phase' = .interrupted) (hreturn : here.returning = none)
      (h : weakSpsc me choice here w.dev = some (dev, after)) :
      WeakWaitMove me w choice ⟨here, phase⟩ { w with dev := dev } ⟨after, phase'⟩
  | finish {wq : Wq} {choice : WeakSpscChoice} {here after : WeakLocal} {phase : WaitPhase}
      {dev : WeakDev} (hphase : phase = .running ∨ phase = .interrupted)
      (htesting : here.testing = some wq) (hafter : after.asleepOn = none)
      (h : weakSpsc me choice here w.dev = some (dev, after)) :
      WeakWaitMove me w choice ⟨here, phase⟩ (WeakWorld.finishWait { w with dev := dev } wq me)
        ⟨after, .running⟩
  | returns {wq : Wq} {choice : WeakSpscChoice} {here after : WeakLocal} {phase : WaitPhase}
      {dev : WeakDev} (hphase : phase = .running ∨ phase = .interrupted)
      (hreturn : here.returning = some wq)
      (h : weakSpsc me choice here w.dev = some (dev, after)) :
      WeakWaitMove me w choice ⟨here, phase⟩ { w with dev := dev } ⟨after, .wake wq⟩

theorem returning_of_testing {here : WeakLocal} {wq : Wq} (h : here.testing = some wq) :
    here.returning = none := by
  unfold WeakLocal.testing at h
  split at h
  · rfl
  · rfl
  · cases h

theorem ringStep_move {phase phase' : WaitPhase} {here : WeakLocal}
    (hphase : phase = .running ∨ phase = .interrupted)
    (hphase' : phase' = .running ∨ phase' = .interrupted)
    (h : ringStep me phase' here w choice = some (w', next)) :
    WeakWaitMove me w choice ⟨here, phase⟩ w' next := by
  obtain ⟨⟨dev, after⟩, hring, heq⟩ := Option.map_eq_some_iff.mp h
  cases htesting : here.testing with
  | some wq =>
      simp only [htesting] at heq
      by_cases hafter : after.asleepOn = none
      · rw [if_pos hafter] at heq
        obtain ⟨rfl, rfl⟩ := Prod.mk.inj heq
        exact .finish hphase htesting hafter hring
      · rw [if_neg hafter] at heq
        obtain ⟨rfl, rfl⟩ := Prod.mk.inj heq
        exact .ring hphase hphase' (returning_of_testing htesting) hring
  | none =>
      cases hreturn : here.returning with
      | some wq =>
          simp only [htesting, hreturn] at heq
          obtain ⟨rfl, rfl⟩ := Prod.mk.inj heq
          exact .returns hphase hreturn hring
      | none =>
          simp only [htesting, hreturn] at heq
          obtain ⟨rfl, rfl⟩ := Prod.mk.inj heq
          exact .ring hphase hphase' hreturn hring

theorem scheduleStep_move {wq : Wq} {here : WeakLocal} (hasleep : here.asleepOn = some wq)
    (h : scheduleStep me wq here w choice = some (w', next)) :
    WeakWaitMove me w choice ⟨here, .running⟩ w' next := by
  unfold scheduleStep at h
  dsimp only at h
  split at h
  · by_cases hmem : me ∈ (w.queue wq).waiters
    · rw [if_pos hmem] at h
      cases h
    · rw [if_neg hmem] at h
      obtain ⟨⟨dev, after⟩, hring, heq⟩ := Option.map_eq_some_iff.mp h
      obtain ⟨rfl, rfl⟩ := Prod.mk.inj heq
      exact .schedule hasleep (Or.inr ⟨rfl, hmem⟩) hring
  · obtain ⟨⟨dev, after⟩, hring, heq⟩ := Option.map_eq_some_iff.mp h
    obtain ⟨rfl, rfl⟩ := Prod.mk.inj heq
    exact .schedule hasleep (Or.inl rfl) hring
  · cases h

theorem weakWaits_move (h : weakWaits me choice thread w = some (w', next)) :
    WeakWaitMove me w choice thread w' next := by
  obtain ⟨here, phase⟩ := thread
  cases phase with
  | prepare wq =>
      cases choice <;> simp only [weakWaits, prepareStep, reduceCtorEq] at h
      · obtain ⟨rfl, rfl⟩ := Prod.mk.inj (Option.some.inj h)
        exact .prepare
      · obtain ⟨rfl, rfl⟩ := Prod.mk.inj (Option.some.inj h)
        exact .prepareSignal
  | wake wq =>
      cases choice <;> simp only [weakWaits, reduceCtorEq] at h
      obtain ⟨rfl, rfl⟩ := Prod.mk.inj (Option.some.inj h)
      exact .wake
  | interrupted =>
      simp only [weakWaits, interruptedStep] at h
      by_cases hasleep : here.asleepOn = none
      · rw [if_pos hasleep] at h
        exact ringStep_move (Or.inr rfl) (Or.inr rfl) h
      · rw [if_neg hasleep] at h
        cases choice <;> simp only [reduceCtorEq] at h
        exact ringStep_move (Or.inr rfl) (Or.inl rfl) h
  | running =>
      simp only [weakWaits] at h
      cases hasleep : here.asleepOn with
      | some wq =>
          rw [hasleep] at h
          exact scheduleStep_move hasleep h
      | none =>
          rw [hasleep] at h
          exact ringStep_move (Or.inl rfl) (Or.inl rfl) h

end Moves

end Kbuf
