import Kbuf.Failure.Invariant
import Kbuf.Machine.Span

namespace Kbuf

open Interleaving FreeRunning

section Definitions

-- What a call has decided to return.
def Local.returning : Local → Option Ret
  | .readBlocking _ _ (.unlock ret) | .readBlocking _ _ (.wake ret)
  | .writeBlocking _ _ (.unlock ret) | .writeBlocking _ _ (.wake ret) | .done ret => some ret
  | _ => none

-- A read that has failed with -EFAULT after `out` has reached the user.
def Local.Faulted (out : List UInt8) (here : Local) : Prop :=
  here.returning = some (.bytes (.error .EFAULT) out)

-- The delivery after the first `k` is of `message`, or there is none yet and `message`
-- is the oldest one in the ring.
def World.Serves (w : World) (k : Nat) (message : List UInt8) : Prop :=
  (∃ count, w.received[k]? = some (count, message.take count)) ∨
    w.received[k]? = none ∧ (queue w.dev).head? = some message

-- A read has reached the user with the beginning of the oldest message, and not with all of it.
def Dev.CutShort (dev : Dev) (out message : List UInt8) : Prop :=
  (queue dev).head? = some message ∧ out <+: message ∧ out.length < message.length

-- The state in which a call of `p` takes the step that fails with -EFAULT, and the message
-- that it has cut short.
def FaultsAt (start : System) (during : List (Act Choice)) (p : Nat) (out message : List UInt8)
    (t : System) : Prop :=
  ∃ first act rest u, during = first ++ act :: rest ∧ act.pid = p ∧
    run driver start first = some t ∧ step driver t act = some u ∧
    ¬(t.locals p).Faulted out ∧ (u.locals p).Faulted out ∧ t.shared.dev.CutShort out message

end Definitions

section Moves

variable {w w' : World} {me : Nat} {out : List UInt8}

-- In blocking mode the copy ends where the user's memory does.
theorem consumeStep_cutShort {n size : Nat} {u : UserRead} (hd : BlockingDev n size w.dev)
    (hne : ringIsEmpty w.dev = false)
    (h : (consumeStep w me u).2 = .bytes (.error .EFAULT) out) :
    ∃ message, w.dev.CutShort out message := by
  have hlen := length_message hd.geometry hd.ring.readPos_lt
  by_cases hu : u.room < min u.count (w.dev.slot w.dev.readPos).len
  · simp only [consumeStep, ringConsume_fault u hu, Ret.bytes.injEq, true_and] at h
    have hout : out = (w.dev.message w.dev.readPos).take u.room := by
      rw [← h, Dev.message, Slot.message, List.take_take, Nat.min_eq_left (by omega)]
    refine ⟨w.dev.message w.dev.readPos, ?_, ?_, ?_⟩
    · rw [hd.queue_eq, head_blockingQueue hd.ring hne]
      rfl
    · rw [hout]
      exact List.take_prefix _ _
    · rw [hout, List.length_take, hlen]
      omega
  · have hleft : min u.count (w.dev.slot w.dev.readPos).len - u.room = 0 := by omega
    simp [consumeStep, ringConsume, copyToUser, hleft] at h

theorem RingOk.head_queue (hok : RingOk w)
    (hready : 0 < depth w.dev.ring.prodIdx w.dev.ring.consIdx) :
    (queue w.dev).head? = some w.dev.ring.consumerSlot.message := by
  obtain ⟨hqueue, -⟩ := spscQueue_release hok.geometry hok.ring hready
    { w.dev.ring with consIdx := w.dev.ring.consIdx + 1 } rfl rfl rfl rfl
  rw [queue_eq_ring hok.mode, hqueue]
  rfl

-- In SPSC mode the bytes so far are the first ones of the consumer's slot.
theorem SpscReadMove.cutShort {nonblock : Bool} {u : UserRead} {pc : SpscReadPc}
    {after : Next SpscReadPc} (hok : RingOk w) (hpc : ConsumerOk w.dev.ring w.slotsPtr u pc)
    (hnext : (after.lift (.readSpsc nonblock u)).Faulted out)
    (h : SpscReadMove nonblock u me w pc w' after) : ∃ message, w.dev.CutShort out message := by
  cases h with
  | @copyFault f hl hr =>
      obtain ⟨hd, hlen, -, hout⟩ := hpc
      obtain ⟨hdata, hslot⟩ := consumerSlot_bounds hok
      obtain rfl : f.out = out := (Ret.bytes.inj (Option.some.inj hnext)).2
      refine ⟨w.dev.ring.consumerSlot.message, hok.head_queue hd.ready, ?_, ?_⟩
      · rw [hout, Slot.message]
        exact List.take_prefix_take_left (by omega)
      · rw [Slot.message, List.length_take]
        omega
  | @wait _ _ out => cases out <;> cases hnext
  | empty | again | block | ready | sleep | consume | len | copyByte | copyDone | publish
  | bytesLoad | bytesStore | msgsLoad | msgsStore | trace | wake => cases hnext

theorem ReadMove.cutShort {nonblock : Bool} {u : UserRead} {pc : ReadPc} {after : Next ReadPc}
    (hdev : Wellformed w.dev) (hhere : (Local.readBlocking nonblock u pc).Relies w)
    (hnot : ¬(Local.readBlocking nonblock u pc).Faulted out)
    (hnext : (after.lift (.readBlocking nonblock u)).Faulted out)
    (h : ReadMove nonblock u me w pc w' after) : ∃ message, w.dev.CutShort out message := by
  cases h with
  | consume =>
      exact consumeStep_cutShort (hdev.blockingDev hhere.1) (hhere.2 rfl) (Option.some.inj hnext)
  | unlockOk | unlockError | wake => exact absurd hnext hnot
  | @wait _ _ out => cases out <;> cases hnext
  | lock | lockSignal | again | sleep | ready | unlockSleep => cases hnext

-- A write returns no bytes.
theorem WriteMove.not_faulted {nonblock : Bool} {u : UserWrite} {pc : WritePc}
    {after : Next (UserWrite × WritePc)} (hnot : ¬(Local.writeBlocking nonblock u pc).Faulted out)
    (h : WriteMove nonblock u me w pc w' after) :
    ¬(after.lift fun (u, pc) => Local.writeBlocking nonblock u pc).Faulted out := by
  intro hnext
  cases h with
  | produce =>
      cases (produceStep_ret w me u).symm.trans (Option.some.inj hnext)
  | unlockOk | unlockError | wake => exact hnot hnext
  | @wait _ _ out => cases out <;> cases hnext
  | lock | lockSignal | clamp | again | sleep | ready | unlockSleep | relock | relockSignal =>
      cases hnext

-- The step with which a read fails finds the message at the head of the ring.
theorem Move.cutShort {choice : Choice} {here next : Local} (hdev : Wellformed w.dev)
    (hdel : w.Delivered) (hhere : here.Relies w) (hnot : ¬here.Faulted out)
    (hnext : next.Faulted out) (h : Move me w choice here w' next) :
    ∃ message, w.dev.CutShort out message := by
  cases h with
  | readBlocking h => exact h.cutShort hdev hhere hnot hnext
  | readSpsc h => exact h.cutShort (ringOk_of_wellformed hdev hhere.1 hdel) hhere.2 hnext
  | writeBlocking h => exact absurd hnext (h.not_faulted hnot)
  | writeSpsc h =>
      cases h with
      | @wait _ _ out => cases out <;> cases hnext
      | clamp | full | again | block | ready | sleep | produce | copyByte | copyFault | copyDone
      | setLen | publish | bytesLoad | bytesStore | msgsLoad | msgsStore | occ | peakHigher
      | peakKept | peakStore | wake => cases hnext
  | @enter _ request => cases request <;> cases hnext
  | readSampleSpsc | readSampleBlocking | writeSampleSpsc | writeSampleBlocking => cases hnext
  | resize h | smode h | reset h | getstats h | poll h => cases h <;> cases hnext

end Moves

section Runs

variable {dev : Dev} {acts returned later during : List (Act Choice)} {s t mid start : System}
  {p : Nat} {request : Request} {out message : List UInt8}

-- A message at the head of the ring goes to the next read, whoever makes it.
theorem serves_later (hdev : Wellformed dev) (hcontract : Along driver Contract (boot dev) acts)
    (hclear : Along driver ResizesClear (boot dev) acts)
    (hrun : run driver (boot dev) acts = some s) {first rest : List (Act Choice)}
    (hsplit : acts = first ++ rest) (ht : run driver (boot dev) first = some t)
    (hhead : (queue t.shared.dev).head? = some message) :
    s.shared.Serves t.shared.received.length message := by
  subst hsplit
  have hbefore := messageInv_run hdev (hcontract.split ht).1 (hclear.split ht).1 ht
  have hafter := messageInv_run hdev hcontract hclear hrun
  obtain ⟨u, hu, hlast⟩ := run_append_eq_some hrun
  obtain rfl := Option.some.inj (ht.symm.trans hu)
  obtain ⟨more, hmore⟩ := run_log hlast
  obtain ⟨others, hqueue⟩ := List.head?_eq_some_iff.mp hhead
  have hnow := (delivered_preloaded_iff dev t).mp hbefore.delivered
  have hend := (delivered_preloaded_iff dev s).mp hafter.delivered
  rw [hqueue] at hnow
  rw [World.sent, World.received, ← hmore, List.filterMap_append, List.filterMap_append,
    ← List.append_assoc] at hend
  unfold World.Serves
  rw [World.received, ← hmore, List.filterMap_append]
  rcases hnow.next hend with ⟨⟨count, got⟩, hgot, hcut⟩ | hnone
  · have hcut : got = message.take count := hcut
    exact .inl ⟨count, hcut ▸ hgot⟩
  · exact .inr hnone

-- The failed read of a run.
theorem CallSpan.faultsAt (hdev : Wellformed dev)
    (hcontract : Along driver Contract (boot dev) returned)
    (hclear : Along driver ResizesClear (boot dev) returned)
    (hspan : CallSpan (boot dev) returned p request start during)
    (hmid : run driver (boot dev) returned = some mid)
    (hdone : mid.locals p = .done (.bytes (.error .EFAULT) out)) :
    ∃ t message, FaultsAt start during p out message t := by
  have hstart : ¬(start.locals p).Faulted out := by
    rw [hspan.start_eq]
    cases request <;> exact nofun
  have hend : (mid.locals p).Faulted out := by rw [hdone]; rfl
  obtain ⟨first, act, rest, t, u, hduring, hact, hfirst, hstep, hnot, hnext⟩ :=
    exists_step_into (hspan.run_during hmid) hstart hend
  obtain ⟨before, hreturned, hbefore⟩ := hspan.split
  have hreach := run_append_of_some hbefore hfirst
  rw [hreturned, hduring, ← List.append_assoc] at hcontract hclear
  have hinv := messageInv_run hdev (hcontract.split hreach).1 (hclear.split hreach).1 hreach
  subst hact
  obtain ⟨w, next, hmove, hu⟩ := step_move (step_preloaded dev hstep)
  have hlast : ((preloaded dev u).locals act.pid).Faulted out := hnext
  rw [hu, State.put_locals_self] at hlast
  obtain ⟨message, hcut⟩ := hmove.cutShort hinv.wellformed hinv.delivered (hinv.relies act.pid)
    hnot hlast
  exact ⟨t, message, first, act, rest, u, hduring, rfl, hfirst, hstep, hnot, hnext, hcut⟩

-- What becomes of its message.
theorem CallSpan.serves (hdev : Wellformed dev)
    (hcontract : Along driver Contract (boot dev) acts)
    (hclear : Along driver ResizesClear (boot dev) acts)
    (hrun : run driver (boot dev) acts = some s) (hsplit : acts = returned ++ later)
    (hmid : run driver (boot dev) returned = some mid)
    (hspan : CallSpan (boot dev) returned p request start during)
    (hdone : mid.locals p = .done (.bytes (.error .EFAULT) out)) :
    ∃ t message, FaultsAt start during p out message t ∧
      s.shared.Serves t.shared.received.length message := by
  have hearly := hcontract
  have hearlier := hclear
  rw [hsplit] at hearly hearlier
  obtain ⟨t, message, hfaults⟩ :=
    hspan.faultsAt hdev (hearly.split hmid).1 (hearlier.split hmid).1 hmid hdone
  refine ⟨t, message, hfaults, ?_⟩
  obtain ⟨first, act, rest, u, hduring, -, hfirst, -, -, -, hcut⟩ := hfaults
  obtain ⟨before, hreturned, hstart⟩ := hspan.split
  have hwhole : acts = ((before ++ [⟨p, .start request⟩]) ++ first) ++ (act :: rest ++ later) := by
    rw [hsplit, hreturned, hduring]
    simp only [List.append_assoc]
  exact serves_later hdev hcontract hclear hrun hwhole (run_append_of_some hstart hfirst) hcut.1

end Runs

end Kbuf
