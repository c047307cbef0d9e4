import Kbuf.Lib.Termination
import Kbuf.Poll.Deadlock

namespace Kbuf

open Interleaving

section Credit

-- What a call has still to give to the others: its effect on the ring and its wakeup. In
-- SPSC mode the bytes it has still to copy count as well.
def ReadPc.credit : ReadPc → Nat
  | .lock | .loop | .unlockSleep | .wait _ | .consume => 2
  | .unlock ret => if ret.ok then 1 else 0
  | .wake _ => 1

def WritePc.credit : WritePc → Nat
  | .lock | .clamp | .loop | .unlockSleep | .wait _ | .relock | .produce => 2
  | .unlock ret => if ret.ok then 1 else 0
  | .wake _ => 1

def SpscReadPc.credit (count : Nat) : SpscReadPc → Nat
  | .empty | .emptyCons _ | .sleep | .wait _ | .consume | .len .. => count + 2
  | .copy f => f.len - f.out.length + 2
  | .publish _ => 2
  | .bytesLoad _ | .bytesStore .. | .msgsLoad _ | .msgsStore .. | .trace _ | .wake _ => 1

def SpscWritePc.credit (count : Nat) : SpscWritePc → Nat
  | .clamp | .full | .fullCons _ | .sleep | .wait _ | .produce => count + 2
  | .copy _ i => count - i + 2
  | .setLen _ | .publish _ => 2
  | .bytesLoad _ | .bytesStore .. | .msgsLoad _ | .msgsStore .. | .occ _ | .peak _ | .peakStore _
  | .wake => 1

def ResizePc.credit : ResizePc → Nat
  | .check | .alloc | .lock _ | .swap _ => 2
  | .unlockBusy _ | .freeNew _ => 0
  | .unlock _ | .freeOld _ | .wake => 1

def SmodePc.credit : SmodePc → Nat
  | .check | .lock _ | .switch _ => 1
  | .unlock _ => 0

def Local.credit : Local → Nat
  | .readEntry _ u => u.count + 2
  | .readBlocking _ _ pc => pc.credit
  | .readSpsc _ u pc => pc.credit u.count
  | .writeEntry _ u => u.count + 2
  | .writeBlocking _ _ pc => pc.credit
  | .writeSpsc _ u pc => pc.credit u.count
  | .resize _ pc => pc.credit
  | .smode _ pc => pc.credit
  | .idle | .reset _ | .getstats .. | .poll _ | .done _ => 0

def userCredit : Local ⊕ Poller → Nat
  | .inl here => here.credit
  | .inr _ => 0

end Credit

section Rank

-- How many steps wait_event_interruptible can still take while nobody changes the ring or
-- wakes anybody, where `after` is what follows once the condition holds.
def WaitPc.rank (stuck queued : Bool) (after : Nat) : WaitPc → Nat
  | .first => if stuck then 3 else after + 1
  | .prepare => if stuck then 2 else after + 2
  | .test => if stuck then (if queued then 1 else 4) else after + 1
  | .asleep => if stuck then (if queued then 0 else 3) else after + 3

def ReadPc.rank (stuck queued : Bool) : ReadPc → Nat
  | .lock => if stuck then 6 else 3
  | .loop => if stuck then 5 else 2
  | .unlockSleep => if stuck then 4 else 5
  | .wait pc => pc.rank stuck queued 3
  | .consume => 1
  | .unlock _ => 2
  | .wake _ => 1

def WritePc.rank (stuck queued : Bool) : WritePc → Nat
  | .lock => if stuck then 7 else 4
  | .clamp => if stuck then 6 else 3
  | .loop => if stuck then 5 else 2
  | .unlockSleep => if stuck then 4 else 5
  | .wait pc => pc.rank stuck queued 3
  | .relock => if stuck then 6 else 3
  | .produce => 1
  | .unlock _ => 2
  | .wake _ => 1

-- An index loaded before the ring changed may lead round the loop once more.
def SpscReadPc.rank (dev : Dev) (queued : Bool) : SpscReadPc → Nat
  | .empty => if spscIsEmpty dev then 6 else 5
  | .emptyCons prod => if spscIsEmpty dev then 5 else if prod = dev.prodIdx then 4 else 8
  | .sleep => if spscIsEmpty dev then 4 else 7
  | .wait pc => pc.rank (spscIsEmpty dev) queued 5
  | .consume => 3
  | .len .. => 2
  | .copy _ => 1
  | .publish _ => 0
  | .bytesLoad _ => 6
  | .bytesStore .. => 5
  | .msgsLoad _ => 4
  | .msgsStore .. => 3
  | .trace _ => 2
  | .wake _ => 1

def SpscWritePc.rank (dev : Dev) (queued : Bool) : SpscWritePc → Nat
  | .clamp => 10
  | .full => if spscIsFull dev then 6 else 5
  | .fullCons prod => if spscIsFull dev then 5 else if prod = dev.prodIdx then 4 else 8
  | .sleep => if spscIsFull dev then 4 else 7
  | .wait pc => pc.rank (spscIsFull dev) queued 5
  | .produce => 3
  | .copy .. => 2
  | .setLen _ => 1
  | .publish _ => 0
  | .bytesLoad _ => 8
  | .bytesStore .. => 7
  | .msgsLoad _ => 6
  | .msgsStore .. => 5
  | .occ _ => 4
  | .peak _ => 3
  | .peakStore _ => 2
  | .wake => 1

def ResizePc.rank : ResizePc → Nat
  | .check => 5
  | .alloc => 4
  | .lock _ => 3
  | .swap _ => 2
  | .unlockBusy _ => 2
  | .freeNew _ => 1
  | .unlock _ => 3
  | .freeOld _ => 2
  | .wake => 1

def SmodePc.rank : SmodePc → Nat
  | .check => 3
  | .lock _ => 2
  | .switch _ => 1
  | .unlock _ => 1

def ResetPc.rank : ResetPc → Nat
  | .lock => 10
  | .store field => 2 + (7 - field)
  | .unlock => 1

def GetstatsPc.rank : GetstatsPc → Nat
  | .lock => 4
  | .load => 3
  | .occ .. => 2
  | .unlock _ => 1

def PollPc.rank : PollPc → Nat
  | .sample => 4
  | .lock => 3
  | .test => 2
  | .spscFull _ => 1
  | .unlock _ => 1

def World.queued (w : World) (me : Nat) (side : Wq) : Bool := me ∈ w.waiters side

def Local.rank (me : Nat) (w : World) : Local → Nat
  | .idle | .done _ => 0
  | .readEntry .. | .writeEntry .. => 12
  | .readBlocking _ _ pc => pc.rank (ringIsEmpty w.dev) (w.queued me .read)
  | .readSpsc _ _ pc => pc.rank w.dev (w.queued me .read)
  | .writeBlocking _ _ pc => pc.rank (ringIsFull w.dev) (w.queued me .write)
  | .writeSpsc _ _ pc => pc.rank w.dev (w.queued me .write)
  | .resize _ pc => pc.rank
  | .smode _ pc => pc.rank
  | .reset pc => pc.rank
  | .getstats _ pc => pc.rank
  | .poll pc => pc.rank

-- A poller that is still on both queues falls asleep for good.
def PollerPc.rank (queued : Bool) : PollerPc → Nat
  | .queueRead => 18
  | .queueWrite => 17
  | .sample => if queued then 9 else 16
  | .empty => if queued then 8 else 15
  | .emptyCons _ => if queued then 7 else 14
  | .full _ => if queued then 6 else 13
  | .fullCons .. => if queued then 5 else 12
  | .lock => if queued then 7 else 14
  | .test => if queued then 6 else 13
  | .unlock .. => if queued then 5 else 12
  | .check .. => if queued then 4 else 11
  | .asleep .. => if queued then 3 else 10
  | .leaveRead _ => 2
  | .leaveWrite _ => 1
  | .returned _ => 0

def userRank (me : Nat) (w : World) : Local ⊕ Poller → Nat
  | .inl here => here.rank me w
  | .inr poller => poller.pc.rank (w.queued me .read && w.queued me .write)

theorem WaitPc.rank_le (stuck queued : Bool) (after : Nat) (pc : WaitPc) :
    pc.rank stuck queued after ≤ after + 4 := by
  unfold WaitPc.rank
  split <;> split <;> first | omega | (split <;> omega)

theorem userRank_le (me : Nat) (w : World) (here : Local ⊕ Poller) : userRank me w here ≤ 18 := by
  rcases here with here | ⟨events, pc⟩
  · cases here with
    | readBlocking _ _ pc =>
        cases pc with
        | wait pc => exact (pc.rank_le _ _ 3).trans (by omega)
        | _ => simp only [userRank, Local.rank, ReadPc.rank]; first | omega | (split <;> omega)
    | writeBlocking _ _ pc =>
        cases pc with
        | wait pc => exact (pc.rank_le _ _ 3).trans (by omega)
        | _ => simp only [userRank, Local.rank, WritePc.rank]; first | omega | (split <;> omega)
    | readSpsc _ _ pc =>
        cases pc with
        | wait pc => exact (pc.rank_le _ _ 5).trans (by omega)
        | emptyCons =>
            simp only [userRank, Local.rank, SpscReadPc.rank]
            split <;> [omega; (split <;> omega)]
        | _ => simp only [userRank, Local.rank, SpscReadPc.rank]; first | omega | (split <;> omega)
    | writeSpsc _ _ pc =>
        cases pc with
        | wait pc => exact (pc.rank_le _ _ 5).trans (by omega)
        | fullCons =>
            simp only [userRank, Local.rank, SpscWritePc.rank]
            split <;> [omega; (split <;> omega)]
        | _ => simp only [userRank, Local.rank, SpscWritePc.rank]; first | omega | (split <;> omega)
    | reset pc =>
        simp only [userRank, Local.rank]
        cases pc <;> simp only [ResetPc.rank] <;> omega
    | resize _ pc => cases pc <;> simp [userRank, Local.rank, ResizePc.rank]
    | smode _ pc => cases pc <;> simp [userRank, Local.rank, SmodePc.rank]
    | getstats _ pc => cases pc <;> simp [userRank, Local.rank, GetstatsPc.rank]
    | poll pc => cases pc <;> simp [userRank, Local.rank, PollPc.rank]
    | idle | done | readEntry | writeEntry => simp [userRank, Local.rank]
  · cases pc <;> simp only [userRank, PollerPc.rank] <;> first | omega | (split <;> omega)

end Rank

end Kbuf
