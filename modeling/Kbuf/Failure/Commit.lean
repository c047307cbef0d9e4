import Kbuf.Machine.Heap
import Kbuf.Machine.Span

namespace Kbuf

open Interleaving

section Definitions

-- The points from which a call cannot fail any more. A RESET cannot fail at all.
def ReadPc.committed : ReadPc → Bool
  | .unlock ret | .wake ret => ret.ok
  | .lock | .loop | .unlockSleep | .wait _ | .consume => false

def WritePc.committed : WritePc → Bool
  | .unlock ret | .wake ret => ret.ok
  | .lock | .clamp | .loop | .unlockSleep | .wait _ | .relock | .produce => false

def SpscReadPc.committed : SpscReadPc → Bool
  | .publish _ | .bytesLoad _ | .bytesStore .. | .msgsLoad _ | .msgsStore .. | .trace _
  | .wake _ => true
  | .empty | .emptyCons _ | .sleep | .wait _ | .consume | .len .. | .copy _ => false

def SpscWritePc.committed : SpscWritePc → Bool
  | .setLen _ | .publish _ | .bytesLoad _ | .bytesStore .. | .msgsLoad _ | .msgsStore ..
  | .occ _ | .peak _ | .peakStore _ | .wake => true
  | .clamp | .full | .fullCons _ | .sleep | .wait _ | .produce | .copy .. => false

def ResizePc.committed : ResizePc → Bool
  | .unlock _ | .freeOld _ | .wake => true
  | .check | .alloc | .lock _ | .swap _ | .unlockBusy _ | .freeNew _ => false

def SmodePc.committed : SmodePc → Bool
  | .unlock (.ok _) => true
  | .check | .lock _ | .switch _ | .unlock (.error _) => false

def Local.committed : Local → Bool
  | .readBlocking _ _ pc => pc.committed
  | .writeBlocking _ _ pc => pc.committed
  | .readSpsc _ _ pc => pc.committed
  | .writeSpsc _ _ pc => pc.committed
  | .resize _ pc => pc.committed
  | .smode _ pc => pc.committed
  | .reset _ => true
  | .done ret => ret.ok
  | .idle | .readEntry .. | .writeEntry .. | .getstats .. | .poll _ => false

-- What a call that may still fail does to the device: it counts a sleep, or it
-- copies into the slot that it means to fill.
inductive Attempt (w : World) (here : Local) (w' : World) : Prop
  | quiet (reads writes : BitVec 64) (hptr : w'.slotsPtr = w.slotsPtr)
      (hdev : w'.dev = { w.dev with readSleeps := reads, writeSleeps := writes })
  | copy {nonblock : Bool} {u : UserWrite} {f : Producing} {i : Nat}
      (hhere : here = .writeSpsc nonblock u (.copy f i)) (hw : w' = storeByte w f.slot u.ubuf i)
  | fault {nonblock : Bool} {u : UserWrite} (data : List UInt8)
      (hhere : here = .writeBlocking nonblock u .produce) (hptr : w'.slotsPtr = w.slotsPtr)
      (hdev : w'.dev =
        w.dev.setSlot w.dev.writePos { w.dev.slot w.dev.writePos with data := data })

end Definitions

section Moves

variable {me : Nat} {choice : Choice} {w w' : World} {here next : Local}

theorem Move.committed (hc : here.committed = true) (hnew : ∀ request, choice ≠ .start request)
    (h : Move me w choice here w' next) : next.committed = true := by
  cases h with
  | enter => exact absurd rfl (hnew _)
  | readSampleSpsc | readSampleBlocking | writeSampleSpsc | writeSampleBlocking => cases hc
  | readBlocking h =>
      cases h with
      | unlockOk | unlockError | wake => exact hc
      | lock | lockSignal | again | sleep | ready | unlockSleep | wait | consume => cases hc
  | writeBlocking h =>
      cases h with
      | unlockOk | unlockError | wake => exact hc
      | lock | lockSignal | clamp | again | sleep | ready | unlockSleep | wait | relock
      | relockSignal | produce => cases hc
  | readSpsc h =>
      cases h with
      | publish | bytesLoad | bytesStore | msgsLoad | msgsStore | trace | wake => rfl
      | empty | again | block | ready | sleep | wait | consume | len | copyByte | copyFault
      | copyDone => cases hc
  | writeSpsc h =>
      cases h with
      | setLen | publish | bytesLoad | bytesStore | msgsLoad | msgsStore | occ | peakHigher
      | peakKept | peakStore | wake => rfl
      | clamp | full | again | block | ready | sleep | wait | produce | copyByte | copyFault
      | copyDone => cases hc
  | resize h =>
      cases h with
      | unlock | freeOld | wake => rfl
      | reject | accept | nomem | alloc | lock | busy | swap | unlockBusy | freeNew => cases hc
  | smode h =>
      cases h with
      | @unlock val =>
          cases val with
          | ok => rfl
          | error => cases hc
      | reject | accept | lock | refuse | switch => cases hc
  | reset h => cases h <;> rfl
  | getstats | poll => cases hc

-- A consume that fails leaves the ring alone.
theorem consumeStep_failed {u : UserRead} (h : (consumeStep w me u).2.ok = false) :
    (consumeStep w me u).1 = w := by
  by_cases hu : u.room < min u.count (w.dev.slot w.dev.readPos).len
  · simp only [consumeStep, ringConsume_fault u hu]
  · have hleft : min u.count (w.dev.slot w.dev.readPos).len - u.room = 0 := by omega
    simp [consumeStep, ringConsume, copyToUser, hleft, Ret.ok] at h

-- A produce that fails has copied into the slot at `writePos`.
theorem produceStep_failed {u : UserWrite} (h : (produceStep w me u).2.ok = false) :
    (produceStep w me u).1.slotsPtr = w.slotsPtr ∧ ∃ data, (produceStep w me u).1.dev =
      w.dev.setSlot w.dev.writePos { w.dev.slot w.dev.writePos with data := data } := by
  by_cases hu : u.count - u.ubuf.length = 0
  · simp [produceStep, ringProduce, copyFromUser, hu, Ret.ok] at h
  · refine ⟨?_, (copyFromUser (w.dev.slot w.dev.writePos).data u.ubuf u.count).1, ?_⟩
    · simp [produceStep, ringProduce, copyFromUser, hu]
    · simp [produceStep, ringProduce, copyFromUser, hu]

theorem Attempt.of_dev_eq (hptr : w'.slotsPtr = w.slotsPtr) (hdev : w'.dev = w.dev) :
    Attempt w here w' :=
  .quiet w.dev.readSleeps w.dev.writeSleeps hptr hdev

theorem WaitMove.attempt {wq : Wq} {cond : Dev → Bool} {pc : WaitPc} {out : WaitNext}
    (h : WaitMove wq cond me w pc w' out) : Attempt w here w' :=
  .of_dev_eq h.sameLayout.slotsPtr h.dev_eq

theorem ReadMove.attempt {nonblock : Bool} {u : UserRead} {pc : ReadPc} {after : Next ReadPc}
    (hnext : (after.lift (.readBlocking nonblock u)).committed = false)
    (h : ReadMove nonblock u me w pc w' after) :
    Attempt w (.readBlocking nonblock u pc) w' := by
  cases h with
  | sleep => exact .quiet _ _ rfl rfl
  | wait hw => exact hw.attempt
  | consume =>
      have hsame : (consumeStep w me u).1 = w := consumeStep_failed hnext
      rw [hsame]
      exact .of_dev_eq rfl rfl
  | lock | lockSignal | again | ready | unlockSleep | unlockOk | unlockError | wake =>
      exact .of_dev_eq rfl rfl

theorem WriteMove.attempt {nonblock : Bool} {u : UserWrite} {pc : WritePc}
    {after : Next (UserWrite × WritePc)}
    (hnext : (after.lift fun (u, pc) => Local.writeBlocking nonblock u pc).committed = false)
    (h : WriteMove nonblock u me w pc w' after) :
    Attempt w (.writeBlocking nonblock u pc) w' := by
  cases h with
  | sleep => exact .quiet _ _ rfl rfl
  | wait hw => exact hw.attempt
  | produce =>
      obtain ⟨hptr, data, hdev⟩ := produceStep_failed hnext
      exact .fault data rfl hptr hdev
  | lock | lockSignal | clamp | again | ready | unlockSleep | relock | relockSignal | unlockOk
  | unlockError | wake => exact .of_dev_eq rfl rfl

theorem Move.attempt (hnext : next.committed = false) (h : Move me w choice here w' next) :
    Attempt w here w' := by
  cases h with
  | enter | readSampleSpsc | readSampleBlocking | writeSampleSpsc | writeSampleBlocking =>
      exact .of_dev_eq rfl rfl
  | readBlocking h => exact h.attempt hnext
  | writeBlocking h => exact h.attempt hnext
  | readSpsc h =>
      cases h with
      | sleep => exact .quiet _ _ rfl rfl
      | wait hw => exact hw.attempt
      | empty | again | block | ready | consume | len | copyByte | copyFault =>
          exact .of_dev_eq rfl rfl
      | copyDone | publish | bytesLoad | bytesStore | msgsLoad | msgsStore | trace | wake =>
          cases hnext
  | writeSpsc h =>
      cases h with
      | sleep => exact .quiet _ _ rfl rfl
      | wait hw => exact hw.attempt
      | copyByte => exact .copy rfl rfl
      | clamp | full | again | block | ready | produce | copyFault => exact .of_dev_eq rfl rfl
      | copyDone | setLen | publish | bytesLoad | bytesStore | msgsLoad | msgsStore | occ
      | peakHigher | peakKept | peakStore | wake => cases hnext
  | resize h =>
      cases h with
      | reject | accept | nomem | alloc | lock | busy | unlockBusy | freeNew =>
          exact .of_dev_eq rfl rfl
      | swap | unlock | freeOld | wake => cases hnext
  | smode h =>
      cases h with
      | reject | accept | lock | refuse | unlock => exact .of_dev_eq rfl rfl
      | switch => cases hnext
  | reset h => cases h <;> cases hnext
  | getstats h => cases h <;> exact .of_dev_eq rfl rfl
  | poll h => cases h <;> exact .of_dev_eq rfl rfl

end Moves

section Span

variable {init start s t u : System} {acts during first rest : List (Act Choice)} {p : Nat}
  {request : Request} {act : Act Choice} {ret : Ret}

theorem committed_run (hnew : ∀ act ∈ rest, act.pid = p → ∀ other, act.choice ≠ .start other)
    (hu : (u.locals p).committed = true) (hrun : run driver u rest = some s) :
    (s.locals p).committed = true := by
  have hstep (s : System) (act : Act Choice) (t : System) (hs : (s.locals p).committed = true)
      (hok : act.pid = p → ∀ other, act.choice ≠ .start other) (h : step driver s act = some t) :
      (t.locals p).committed = true := by
    obtain ⟨w, next, hmove, rfl⟩ := step_move h
    by_cases hp : p = act.pid
    · subst hp
      rw [State.put_locals_self]
      exact hmove.committed hs (hok rfl)
    · rw [State.put_locals_of_ne _ _ hp]
      exact hs
  exact run_invariant hstep hu (along_of_mem fun _ => hnew) hrun

-- Every step that a failed call has taken was an attempt.
theorem CallSpan.attempts (hspan : CallSpan init acts p request start during)
    (hrun : run driver init acts = some s) (hdone : s.locals p = .done ret)
    (hfailed : ret.ok = false) (hsplit : during = first ++ act :: rest) (hact : act.pid = p)
    (hfirst : run driver start first = some t) (hstep : step driver t act = some u) :
    Attempt t.shared (t.locals p) u.shared := by
  have hduring := hspan.run_during hrun
  rw [hsplit] at hduring
  obtain ⟨t', ht', hrest⟩ := run_append_eq_some hduring
  obtain rfl := Option.some.inj (hfirst.symm.trans ht')
  obtain ⟨u', hu', hlast⟩ := run_cons hrest
  obtain rfl := Option.some.inj (hstep.symm.trans hu')
  have hnot : (u.locals p).committed = false := by
    refine Bool.eq_false_iff.mpr fun hu => ?_
    have hnew : ∀ act ∈ rest, act.pid = p → ∀ other, act.choice ≠ .start other :=
      fun other hother => hspan.same other (by simp [hsplit, hother])
    have hend := committed_run hnew hu hlast
    rw [hdone] at hend
    exact Bool.false_ne_true (hfailed.symm.trans hend)
  obtain ⟨w, next, hmove, rfl⟩ := step_move hstep
  subst hact
  rw [State.put_locals_self] at hnot
  exact hmove.attempt hnot

end Span

end Kbuf
