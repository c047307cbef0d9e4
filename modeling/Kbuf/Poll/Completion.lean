import Kbuf.Poll.Rank

namespace Kbuf

open Interleaving

section Quiet

-- What the ranks of the others depend on.
structure Quiet (me : Nat) (w w' : World) : Prop where
  count : w'.dev.count = w.dev.count
  numBuffers : w'.dev.numBuffers = w.dev.numBuffers
  prodIdx : w'.dev.prodIdx = w.dev.prodIdx
  consIdx : w'.dev.consIdx = w.dev.consIdx
  waiters : ∀ p, p ≠ me → ∀ side, p ∈ w'.waiters side ↔ p ∈ w.waiters side

variable {me p : Nat} {w w' : World}

theorem Quiet.of_queues (hc : w'.dev.count = w.dev.count)
    (hn : w'.dev.numBuffers = w.dev.numBuffers) (hp : w'.dev.prodIdx = w.dev.prodIdx)
    (hcons : w'.dev.consIdx = w.dev.consIdx) (hread : w'.readWq = w.readWq)
    (hwrite : w'.writeWq = w.writeWq) : Quiet me w w' := by
  refine ⟨hc, hn, hp, hcons, fun p _ side => ?_⟩
  cases side with
  | read => simp only [World.waiters, hread]
  | write => simp only [World.waiters, hwrite]

theorem Quiet.refl (me : Nat) (w : World) : Quiet me w w := .of_queues rfl rfl rfl rfl rfl rfl

theorem Quiet.isEmpty (h : Quiet me w w') : ringIsEmpty w'.dev = ringIsEmpty w.dev := by
  simp only [ringIsEmpty, h.count]

theorem Quiet.isFull (h : Quiet me w w') : ringIsFull w'.dev = ringIsFull w.dev := by
  simp only [ringIsFull, h.count, h.numBuffers]

theorem Quiet.spscIsEmpty (h : Quiet me w w') : spscIsEmpty w'.dev = spscIsEmpty w.dev := by
  simp only [Kbuf.spscIsEmpty, h.prodIdx, h.consIdx]

theorem Quiet.spscIsFull (h : Quiet me w w') : spscIsFull w'.dev = spscIsFull w.dev := by
  simp only [Kbuf.spscIsFull, h.prodIdx, h.consIdx, h.numBuffers]

theorem Quiet.queued (h : Quiet me w w') (hp : p ≠ me) (side : Wq) :
    w'.queued p side = w.queued p side := by
  unfold World.queued
  exact decide_eq_decide.mpr (h.waiters p hp side)

theorem Quiet.rank_eq (h : Quiet me w w') (hp : p ≠ me) (there : Local ⊕ Poller) :
    userRank p w' there = userRank p w there := by
  have hread := h.queued hp .read
  have hwrite := h.queued hp .write
  rcases there with here | poller
  · cases here with
    | readBlocking => simp only [userRank, Local.rank, h.isEmpty, hread]
    | writeBlocking => simp only [userRank, Local.rank, h.isFull, hwrite]
    | readSpsc _ _ pc =>
        simp only [userRank, Local.rank, hread]
        cases pc <;> simp only [SpscReadPc.rank, h.spscIsEmpty, h.prodIdx]
    | writeSpsc _ _ pc =>
        simp only [userRank, Local.rank, hwrite]
        cases pc <;> simp only [SpscWritePc.rank, h.spscIsFull, h.prodIdx]
    | idle | readEntry | writeEntry | resize | smode | reset | getstats | poll | done => rfl
  · simp only [userRank, hread, hwrite]

abbrev UserDescends (me : Nat) (w : World) (here : Local ⊕ Poller) (w' : World)
    (next : Local ⊕ Poller) : Prop :=
  Descends userCredit userRank me w here w' next

theorem Quiet.descends {here next : Local ⊕ Poller} (h : Quiet me w w')
    (hcredit : userCredit next ≤ userCredit here)
    (hrank : userRank me w' next < userRank me w here) : UserDescends me w here w' next :=
  .lowers hcredit hrank fun _ hp there => Nat.le_of_eq (h.rank_eq hp there)

abbrev UserRestarts (me : Nat) (w : World) (here : Local ⊕ Poller) (w' : World)
    (next : Local ⊕ Poller) : Prop :=
  Restarts userCredit userRank me w here w' next

theorem Quiet.restarts {here next : Local ⊕ Poller} (h : Quiet me w w')
    (hcredit : userCredit next = userCredit here) : UserRestarts me w here w' next :=
  ⟨Nat.le_of_eq hcredit, fun _ hp there => Nat.le_of_eq (h.rank_eq hp there)⟩

end Quiet

section Calls

variable {me : Nat} {w w' : World}

theorem WaitMove.quiet {wq : Wq} {cond : Dev → Bool} {pc : WaitPc} {out : WaitNext}
    (h : WaitMove wq cond me w pc w' out) : Quiet me w w' := by
  have hd := h.dev_eq
  refine ⟨by rw [hd], by rw [hd], by rw [hd], by rw [hd], fun p hp side => ?_⟩
  cases h with
  | firstWoken | firstFalse | testFalse | awake | spurious => exact Iff.rfl
  | prepare => exact mem_waiters_enqueue hp
  | signalWoken | signal | testWoken => exact mem_waiters_dequeue hp

theorem queued_enqueue (w : World) (wq : Wq) (me : Nat) :
    (w.enqueue wq me).queued me wq = true := by
  cases wq <;> simp [World.queued, World.enqueue, World.setWaiters, World.waiters]

def WaitNext.Below (stuck queued : Bool) (after bound : Nat) : WaitNext → Prop
  | .wait pc => pc.rank stuck queued after < bound
  | .woken => stuck = false ∧ after < bound
  | .interrupted => True

-- Waiting comes to an end, or to sleep on the queue.
theorem WaitMove.below {wq : Wq} {cond : Dev → Bool} {pc : WaitPc} {out : WaitNext}
    (hgo : pc = .asleep → me ∉ w.waiters wq) (h : WaitMove wq cond me w pc w' out) (after : Nat) :
    out.Below (!cond w.dev) (w'.queued me wq) after
      (pc.rank (!cond w.dev) (w.queued me wq) after) := by
  cases h with
  | firstWoken hc | signalWoken hc | testWoken hc => simp [WaitNext.Below, WaitPc.rank, hc]
  | firstFalse hc => simp [WaitNext.Below, WaitPc.rank, hc]
  | prepare =>
      rw [queued_enqueue]
      cases hc : cond w.dev <;> simp [WaitNext.Below, WaitPc.rank]
  | signal => trivial
  | testFalse hc => cases hq : w.queued me wq <;> simp [WaitNext.Below, WaitPc.rank, hc]
  | awake | spurious =>
      have hq : w.queued me wq = false := decide_eq_false (hgo rfl)
      cases hc : cond w.dev <;> simp [WaitNext.Below, WaitPc.rank, hq]

theorem ReadMove.descends {nonblock : Bool} {u : UserRead} {pc : ReadPc} {after : Next ReadPc}
    (hgo : pc = .wait .asleep → me ∉ w.waiters .read) (h : ReadMove nonblock u me w pc w' after) :
    UserDescends me w (.inl (.readBlocking nonblock u pc)) w'
      (.inl (after.lift (.readBlocking nonblock u))) := by
  cases h with
  | lockSignal | again => exact .spends Nat.zero_lt_two
  | lock =>
      refine Quiet.descends (.of_queues rfl rfl rfl rfl rfl rfl) (Nat.le_refl 2) ?_
      simp only [userRank, Local.rank, Next.lift, ReadPc.rank]
      split <;> omega
  | sleep he =>
      refine Quiet.descends (.of_queues rfl rfl rfl rfl rfl rfl) (Nat.le_refl 2) ?_
      change (if ringIsEmpty w.dev then 4 else 5) < if ringIsEmpty w.dev then 5 else 2
      simp [he]
  | ready he =>
      refine (Quiet.refl me w).descends (Nat.le_refl 2) ?_
      simp [userRank, Local.rank, Next.lift, ReadPc.rank, he]
  | unlockSleep =>
      refine Quiet.descends (.of_queues rfl rfl rfl rfl rfl rfl) (Nat.le_refl 2) ?_
      change (if ringIsEmpty w.dev then 3 else 4) < if ringIsEmpty w.dev then 4 else 5
      split <;> omega
  | @wait pc _ out hw =>
      have hbelow := hw.below (fun h => hgo (by rw [h])) 3
      rw [Bool.not_not] at hbelow
      cases out with
      | wait next =>
          refine hw.quiet.descends (Nat.le_refl 2) ?_
          simp only [userRank, Local.rank, ReadPc.afterWait, Next.lift, ReadPc.rank,
            hw.quiet.isEmpty]
          exact hbelow
      | woken =>
          refine hw.quiet.descends (Nat.le_refl 2) ?_
          simp only [userRank, Local.rank, ReadPc.afterWait, Next.lift, ReadPc.rank,
            hw.quiet.isEmpty, hbelow.1, Bool.false_eq_true, if_false]
          rw [hbelow.1] at hbelow
          exact hbelow.2
      | interrupted => exact .spends Nat.zero_lt_two
  | consume =>
      refine .spends ?_
      simp only [userCredit, Local.credit, Next.lift, ReadPc.credit]
      split <;> omega
  | unlockOk hok =>
      refine Quiet.descends (.of_queues rfl rfl rfl rfl rfl rfl) ?_ Nat.one_lt_two
      simp [userCredit, Local.credit, Next.lift, ReadPc.credit, hok]
  | unlockError =>
      exact Quiet.descends (.of_queues rfl rfl rfl rfl rfl rfl) (Nat.zero_le _) Nat.zero_lt_two
  | wake => exact .spends Nat.zero_lt_one

theorem WriteMove.descends {nonblock : Bool} {u : UserWrite} {pc : WritePc}
    {after : Next (UserWrite × WritePc)} (hgo : pc = .wait .asleep → me ∉ w.waiters .write)
    (h : WriteMove nonblock u me w pc w' after) :
    UserDescends me w (.inl (.writeBlocking nonblock u pc)) w'
      (.inl (after.lift fun (u, pc) => .writeBlocking nonblock u pc)) := by
  cases h with
  | lockSignal | relockSignal | again => exact .spends Nat.zero_lt_two
  | lock | relock =>
      refine Quiet.descends (.of_queues rfl rfl rfl rfl rfl rfl) (Nat.le_refl 2) ?_
      simp only [userRank, Local.rank, Next.lift, WritePc.rank]
      split <;> omega
  | clamp =>
      refine (Quiet.refl me w).descends (Nat.le_refl 2) ?_
      simp only [userRank, Local.rank, Next.lift, WritePc.rank]
      split <;> omega
  | sleep he =>
      refine Quiet.descends (.of_queues rfl rfl rfl rfl rfl rfl) (Nat.le_refl 2) ?_
      change (if ringIsFull w.dev then 4 else 5) < if ringIsFull w.dev then 5 else 2
      simp [he]
  | ready he =>
      refine (Quiet.refl me w).descends (Nat.le_refl 2) ?_
      simp [userRank, Local.rank, Next.lift, WritePc.rank, he]
  | unlockSleep =>
      refine Quiet.descends (.of_queues rfl rfl rfl rfl rfl rfl) (Nat.le_refl 2) ?_
      change (if ringIsFull w.dev then 3 else 4) < if ringIsFull w.dev then 4 else 5
      split <;> omega
  | @wait pc _ out hw =>
      have hbelow := hw.below (fun h => hgo (by rw [h])) 3
      rw [Bool.not_not] at hbelow
      cases out with
      | wait next =>
          refine hw.quiet.descends (Nat.le_refl 2) ?_
          simp only [userRank, Local.rank, WritePc.afterWait, Next.lift, WritePc.rank,
            hw.quiet.isFull]
          exact hbelow
      | woken =>
          refine hw.quiet.descends (Nat.le_refl 2) ?_
          simp only [userRank, Local.rank, WritePc.afterWait, Next.lift, WritePc.rank,
            hw.quiet.isFull, hbelow.1, Bool.false_eq_true, if_false]
          rw [hbelow.1] at hbelow
          exact hbelow.2
      | interrupted => exact .spends Nat.zero_lt_two
  | produce =>
      refine .spends ?_
      simp only [userCredit, Local.credit, Next.lift, WritePc.credit]
      split <;> omega
  | unlockOk hok =>
      refine Quiet.descends (.of_queues rfl rfl rfl rfl rfl rfl) ?_ Nat.one_lt_two
      simp [userCredit, Local.credit, Next.lift, WritePc.credit, hok]
  | unlockError =>
      exact Quiet.descends (.of_queues rfl rfl rfl rfl rfl rfl) (Nat.zero_le _) Nat.zero_lt_two
  | wake => exact .spends Nat.zero_lt_one

theorem SpscReadMove.descends {nonblock : Bool} {u : UserRead} {pc : SpscReadPc}
    {after : Next SpscReadPc} (hgo : pc = .wait .asleep → me ∉ w.waiters .read)
    (h : SpscReadMove nonblock u me w pc w' after) :
    UserDescends me w (.inl (.readSpsc nonblock u pc)) w'
      (.inl (after.lift (.readSpsc nonblock u))) := by
  cases h with
  | again => exact .spends (Nat.succ_pos _)
  | copyFault => exact .spends (Nat.succ_pos _)
  | empty =>
      refine (Quiet.refl me w).descends (Nat.le_refl _) ?_
      simp only [userRank, Local.rank, Next.lift, SpscReadPc.rank, if_true]
      split <;> omega
  | @block prod he =>
      refine (Quiet.refl me w).descends (Nat.le_refl _) ?_
      simp only [userRank, Local.rank, Next.lift, SpscReadPc.rank]
      by_cases hempty : spscIsEmpty w.dev = true
      · simp [hempty]
      · have hstale : prod ≠ w.dev.prodIdx := by
          intro hprod
          exact hempty (decide_eq_true (hprod.symm.trans he))
        simp [hempty, hstale]
  | ready =>
      refine (Quiet.refl me w).descends (Nat.le_refl _) ?_
      simp only [userRank, Local.rank, Next.lift, SpscReadPc.rank]
      split
      · omega
      · split <;> omega
  | sleep =>
      refine Quiet.descends (.of_queues rfl rfl rfl rfl rfl rfl) (Nat.le_refl _) ?_
      change (if spscIsEmpty w.dev then 3 else 6) < if spscIsEmpty w.dev then 4 else 7
      split <;> omega
  | @wait pc _ out hw =>
      have hbelow := hw.below (fun h => hgo (by rw [h])) 5
      rw [Bool.not_not] at hbelow
      cases out with
      | wait next =>
          refine hw.quiet.descends (Nat.le_refl _) ?_
          simp only [userRank, Local.rank, SpscReadPc.afterWait, Next.lift, SpscReadPc.rank,
            hw.quiet.spscIsEmpty]
          exact hbelow
      | woken =>
          refine hw.quiet.descends (Nat.le_refl _) ?_
          simp only [userRank, Local.rank, SpscReadPc.afterWait, Next.lift, SpscReadPc.rank,
            hw.quiet.spscIsEmpty, hbelow.1, Bool.false_eq_true, if_false]
          rw [hbelow.1] at hbelow
          exact hbelow.2
      | interrupted => exact .spends (Nat.succ_pos _)
  | consume => exact (Quiet.refl me w).descends (Nat.le_refl _) (Nat.lt_succ_self 2)
  | len =>
      refine (Quiet.refl me w).descends ?_ (Nat.lt_succ_self 1)
      simp only [userCredit, Local.credit, Next.lift, SpscReadPc.credit]
      omega
  | copyByte hl =>
      refine .spends ?_
      simp only [userCredit, Local.credit, Next.lift, SpscReadPc.credit, List.length_append,
        List.length_singleton]
      omega
  | copyDone =>
      exact (Quiet.refl me w).descends (Nat.le_add_left 2 _) Nat.zero_lt_one
  | publish => exact .spends Nat.one_lt_two
  | bytesLoad | bytesStore | msgsLoad | msgsStore | trace =>
      exact Quiet.descends (.of_queues rfl rfl rfl rfl rfl rfl) (Nat.le_refl 1) (Nat.lt_succ_self _)
  | wake => exact .spends Nat.zero_lt_one

theorem SpscWriteMove.descends {nonblock : Bool} {u : UserWrite} {pc : SpscWritePc}
    {after : Next (UserWrite × SpscWritePc)} (hgo : pc = .wait .asleep → me ∉ w.waiters .write)
    (h : SpscWriteMove nonblock u me w pc w' after) :
    UserDescends me w (.inl (.writeSpsc nonblock u pc)) w'
      (.inl (after.lift fun (u, pc) => .writeSpsc nonblock u pc)) := by
  cases h with
  | again => exact .spends (Nat.succ_pos _)
  | copyFault => exact .spends (Nat.succ_pos _)
  | clamp =>
      have hcount := clamp_count u w.dev.bufferSize
      refine (Quiet.refl me w).descends ?_ ?_
      · simp only [userCredit, Local.credit, Next.lift, SpscWritePc.credit]
        omega
      · simp only [userRank, Local.rank, Next.lift, SpscWritePc.rank]
        split <;> omega
  | full =>
      refine (Quiet.refl me w).descends (Nat.le_refl _) ?_
      simp only [userRank, Local.rank, Next.lift, SpscWritePc.rank, if_true]
      split <;> omega
  | @block prod he =>
      refine (Quiet.refl me w).descends (Nat.le_refl _) ?_
      simp only [userRank, Local.rank, Next.lift, SpscWritePc.rank]
      by_cases hfull : spscIsFull w.dev = true
      · simp [hfull]
      · have hstale : prod ≠ w.dev.prodIdx := by
          rintro rfl
          exact hfull (decide_eq_true he)
        simp [hfull, hstale]
  | ready =>
      refine (Quiet.refl me w).descends (Nat.le_refl _) ?_
      simp only [userRank, Local.rank, Next.lift, SpscWritePc.rank]
      split
      · omega
      · split <;> omega
  | sleep =>
      refine Quiet.descends (.of_queues rfl rfl rfl rfl rfl rfl) (Nat.le_refl _) ?_
      change (if spscIsFull w.dev then 3 else 6) < if spscIsFull w.dev then 4 else 7
      split <;> omega
  | @wait pc _ out hw =>
      have hbelow := hw.below (fun h => hgo (by rw [h])) 5
      rw [Bool.not_not] at hbelow
      cases out with
      | wait next =>
          refine hw.quiet.descends (Nat.le_refl _) ?_
          simp only [userRank, Local.rank, SpscWritePc.afterWait, Next.lift, SpscWritePc.rank,
            hw.quiet.spscIsFull]
          exact hbelow
      | woken =>
          refine hw.quiet.descends (Nat.le_refl _) ?_
          simp only [userRank, Local.rank, SpscWritePc.afterWait, Next.lift, SpscWritePc.rank,
            hw.quiet.spscIsFull, hbelow.1, Bool.false_eq_true, if_false]
          rw [hbelow.1] at hbelow
          exact hbelow.2
      | interrupted => exact .spends (Nat.succ_pos _)
  | produce => exact (Quiet.refl me w).descends (Nat.le_refl _) (Nat.lt_succ_self 2)
  | copyByte hi =>
      refine .spends ?_
      simp only [userCredit, Local.credit, Next.lift, SpscWritePc.credit]
      omega
  | copyDone => exact (Quiet.refl me w).descends (Nat.le_add_left 2 _) Nat.one_lt_two
  | setLen =>
      exact Quiet.descends (.of_queues rfl rfl rfl rfl rfl rfl) (Nat.le_refl 2) Nat.zero_lt_one
  | publish => exact .spends Nat.one_lt_two
  | bytesLoad | bytesStore | msgsLoad | msgsStore | occ | peakHigher | peakStore =>
      exact Quiet.descends (.of_queues rfl rfl rfl rfl rfl rfl) (Nat.le_refl 1) (Nat.lt_succ_self _)
  | peakKept =>
      exact (Quiet.refl me w).descends (Nat.le_refl 1) (Nat.lt_add_of_pos_right Nat.zero_lt_two)
  | wake => exact .spends Nat.zero_lt_one

theorem ResizeMove.descends {rq : ResizeArg} {pc : ResizePc} {after : Next ResizePc}
    (h : ResizeMove rq me w pc w' after) :
    UserDescends me w (.inl (.resize rq pc)) w' (.inl (after.lift (.resize rq))) := by
  cases h with
  | reject | nomem => exact .spends Nat.zero_lt_two
  | swap => exact .spends Nat.one_lt_two
  | busy => exact .spends Nat.zero_lt_two
  | accept | alloc | lock | unlockBusy | freeNew | unlock | freeOld =>
      exact Quiet.descends (.of_queues rfl rfl rfl rfl rfl rfl) (Nat.le_refl _) (Nat.lt_succ_self _)
  | wake => exact .spends Nat.zero_lt_one

theorem SmodeMove.descends {arg : SmodeArg} {pc : SmodePc} {after : Next SmodePc}
    (h : SmodeMove arg me w pc w' after) :
    UserDescends me w (.inl (.smode arg pc)) w' (.inl (after.lift (.smode arg))) := by
  cases h with
  | reject | refuse | switch => exact .spends Nat.zero_lt_one
  | accept | lock | unlock =>
      exact Quiet.descends (.of_queues rfl rfl rfl rfl rfl rfl) (Nat.le_refl _) (Nat.lt_succ_self _)

theorem ResetMove.descends {pc : ResetPc} {after : Next ResetPc} (h : ResetMove me w pc w' after) :
    UserDescends me w (.inl (.reset pc)) w' (.inl (after.lift .reset)) := by
  cases h with
  | lock =>
      exact Quiet.descends (.of_queues rfl rfl rfl rfl rfl rfl) (Nat.le_refl 0) (Nat.lt_succ_self 9)
  | @store field =>
      obtain ⟨_, _, _, _, _, _, _, hframe⟩ := resetStore_frame w.dev field
      rw [hframe]
      refine Quiet.descends (.of_queues rfl rfl rfl rfl rfl rfl) (Nat.le_refl 0) ?_
      simp only [userRank, Local.rank, Next.lift]
      by_cases hlt : field < 6
      · rw [if_pos hlt]
        simp only [ResetPc.rank]
        omega
      · rw [if_neg hlt]
        simp only [ResetPc.rank]
        omega
  | unlock =>
      exact Quiet.descends (.of_queues rfl rfl rfl rfl rfl rfl) (Nat.le_refl 0) Nat.zero_lt_one

theorem GetstatsMove.descends {fault : Bool} {pc : GetstatsPc} {after : Next GetstatsPc}
    (h : GetstatsMove fault me w pc w' after) :
    UserDescends me w (.inl (.getstats fault pc)) w' (.inl (after.lift (.getstats fault))) := by
  refine Quiet.descends ?_ ?_ ?_
  · cases h <;> exact .of_queues rfl rfl rfl rfl rfl rfl
  · cases h <;> exact Nat.le_refl 0
  · cases h <;> simp [userRank, Local.rank, Next.lift, GetstatsPc.rank]

theorem PollMove.descends {pc : PollPc} {after : Next PollPc} (h : PollMove me w pc w' after) :
    UserDescends me w (.inl (.poll pc)) w' (.inl (after.lift .poll)) := by
  refine Quiet.descends ?_ ?_ ?_
  · cases h <;> exact .of_queues rfl rfl rfl rfl rfl rfl
  · cases h <;> exact Nat.le_refl 0
  · cases h <;> simp [userRank, Local.rank, Next.lift, PollPc.rank]

theorem Move.descends {choice : Choice} {here next : Local}
    (hstart : ∀ request, choice ≠ .start request)
    (hgo : ∀ side, here.parkedOn side = true → me ∉ w.waiters side)
    (h : Move me w choice here w' next) : UserDescends me w (.inl here) w' (.inl next) := by
  cases h with
  | @enter _ request _ => exact absurd rfl (hstart request)
  | readSampleSpsc | writeSampleSpsc =>
      refine (Quiet.refl me w).descends (Nat.le_refl _) ?_
      simp only [userRank, Local.rank, SpscReadPc.rank, SpscWritePc.rank]
      first | omega | (split <;> omega)
  | readSampleBlocking | writeSampleBlocking =>
      refine (Quiet.refl me w).descends (Nat.le_add_left 2 _) ?_
      simp only [userRank, Local.rank, ReadPc.rank, WritePc.rank]
      split <;> omega
  | readBlocking h => exact h.descends fun hpc => hgo .read (by rw [hpc]; rfl)
  | writeBlocking h => exact h.descends fun hpc => hgo .write (by rw [hpc]; rfl)
  | readSpsc h => exact h.descends fun hpc => hgo .read (by rw [hpc]; rfl)
  | writeSpsc h => exact h.descends fun hpc => hgo .write (by rw [hpc]; rfl)
  | resize h => exact h.descends
  | smode h => exact h.descends
  | reset h => exact h.descends
  | getstats h => exact h.descends
  | poll h => exact h.descends

end Calls

section Polls

variable {me : Nat} {w w' : World} {events : BitVec 32}

theorem PollerMove.quiet {pc next : PollerPc} (h : PollerMove events me w pc w' next) :
    Quiet me w w' := by
  have hd := h.dev_eq
  exact ⟨by rw [hd], by rw [hd], by rw [hd], by rw [hd], fun p hp side => h.mem_waiters hp⟩

theorem queued_rearm (w : World) (me : Nat) (side : Wq) : (w.rearm me).queued me side = true := by
  cases side <;> simp [World.queued, World.rearm, World.enqueue, World.setWaiters, World.waiters]

theorem PollerMove.descends {pc next : PollerPc}
    (hgo : ∀ isEmpty isFull, pc = .asleep isEmpty isFull → next = .sample →
      (w.queued me .read && w.queued me .write) = false)
    (h : PollerMove events me w pc w' next) :
    UserDescends me w (.inr ⟨events, pc⟩) w' (.inr ⟨events, next⟩) := by
  refine h.quiet.descends (Nat.le_refl 0) ?_
  cases h with
  | again =>
      simp only [userRank, PollerPc.rank, queued_rearm, hgo _ _ rfl rfl, Bool.and_self]
      decide
  | queueRead => exact Nat.lt_succ_self 17
  | queueWrite =>
      simp only [userRank, PollerPc.rank]
      split <;> omega
  | giveUp =>
      simp only [userRank, PollerPc.rank]
      split <;> omega
  | ready =>
      simp only [userRank, PollerPc.rank]
      split <;> omega
  | leaveRead => exact Nat.lt_succ_self 1
  | leaveWrite => exact Nat.lt_succ_self 0
  | sampleSpsc | sampleBlocking | empty | emptyCons | full | fullCons | test | sleep =>
      simp only [userRank, PollerPc.rank]
      split <;> omega
  | lock | unlock =>
      change (if w.queued me .read && w.queued me .write then _ else _) <
        if w.queued me .read && w.queued me .write then _ else _
      split <;> omega

end Polls

section Runs

variable {me : Nat} {w : World}

-- A sleeper runs only after a wakeup.
theorem driver_awake {choice : Choice} {here : Local} {after : World × Local}
    (hspurious : choice ≠ .spurious) (h : driver me choice here w = some after) (side : Wq)
    (hparked : here.parkedOn side = true) : me ∉ w.waiters side := by
  intro hmem
  unfold Local.parkedOn at hparked
  split at hparked
  · cases choice <;> simp [driver, readBlockingStep, waitEvent, hmem] at h
    exact hspurious rfl
  · cases choice <;> simp [driver, readSpscStep, waitEvent, hmem] at h
    exact hspurious rfl
  · cases choice <;> simp [driver, writeBlockingStep, waitEvent, hmem] at h
    exact hspurious rfl
  · cases choice <;> simp [driver, writeSpscStep, waitEvent, hmem] at h
    exact hspurious rfl
  · cases hparked

-- What is left once no new call and no new poll comes in. A signal that finds its process
-- asleep makes it runnable first, which is the wakeup out of turn.
def Underway (act : Act UserChoice) : Prop :=
  act.choice = .call .go ∨ act.choice = .call .signal ∨ act.choice = .call .spurious

def wakesOutOfTurn (act : Act UserChoice) : Bool :=
  match act.choice with
  | .call .spurious => true
  | _ => false

theorem pollerStep_awake {choice : Choice} {events : BitVec 32} {isEmpty isFull : Bool} {w' : World}
    (hspurious : choice ≠ .spurious)
    (h : pollerStep events me w (.asleep isEmpty isFull) choice = some (w', .sample)) :
    (w.queued me .read && w.queued me .write) = false := by
  cases choice with
  | start | signal => simp [pollerStep] at h
  | spurious => exact absurd rfl hspurious
  | go =>
      by_cases hboth : me ∈ w.waiters .read ∧ me ∈ w.waiters .write
      · simp [pollerStep, hboth] at h
      · unfold World.queued
        rw [← Bool.decide_and, decide_eq_false_iff_not]
        exact hboth

theorem users_descends {choice : UserChoice} {here : Local ⊕ Poller}
    {after : World × (Local ⊕ Poller)} (hquiet : choice = .call .go ∨ choice = .call .signal)
    (h : users me choice here w = some after) :
    busy here = true ∧ UserDescends me w here after.1 after.2 := by
  obtain ⟨own, rfl, hstart, hspurious⟩ : ∃ own, choice = .call own ∧
      (∀ request, own ≠ .start request) ∧ own ≠ .spurious := by
    rcases hquiet with rfl | rfl
    · exact ⟨.go, rfl, by simp, by simp⟩
    · exact ⟨.signal, rfl, by simp, by simp⟩
  rcases here with here | ⟨events, pc⟩
  · obtain ⟨⟨w', next⟩, hd, rfl⟩ := Option.map_eq_some_iff.mp h
    refine ⟨?_, (driver_move hd).descends hstart (driver_awake hspurious hd)⟩
    cases here with
    | idle | done =>
        obtain ⟨request, hr, -⟩ := enterStep_eq_some hd
        exact absurd hr (hstart request)
    | _ => rfl
  · have hbusy : busy (.inr ⟨events, pc⟩) = true := by
      cases pc with
      | returned =>
          cases own with
          | start request => exact absurd rfl (hstart request)
          | go | signal | spurious => cases h
      | _ => rfl
    have hmap : (pollerStep events me w pc own).map (Prod.map id fun pc => .inr ⟨events, pc⟩) =
        some after := by
      cases pc with
      | returned => cases hbusy
      | _ => exact h
    obtain ⟨⟨w', next⟩, hd, rfl⟩ := Option.map_eq_some_iff.mp hmap
    refine ⟨hbusy, (pollerStep_move hd).descends fun isEmpty isFull hpc hnext => ?_⟩
    subst hpc hnext
    exact pollerStep_awake hspurious hd

-- A call that is woken out of turn goes back to its test, with all it had still to do.
theorem driver_restarts {here : Local} {after : World × Local}
    (h : driver me .spurious here w = some after) :
    busy (.inl here) = true ∧ UserRestarts me w (.inl here) after.1 (.inl after.2) := by
  cases here with
  | idle | done | readEntry | writeEntry => cases h
  | readBlocking nonblock u pc =>
      cases pc with
      | wait pc =>
          cases pc with
          | asleep =>
              obtain rfl := Option.some.inj h
              exact ⟨rfl, (Quiet.refl me w).restarts rfl⟩
          | first | prepare | test => cases h
      | lock | loop | unlockSleep | consume | unlock | wake => cases h
  | writeBlocking nonblock u pc =>
      cases pc with
      | wait pc =>
          cases pc with
          | asleep =>
              obtain rfl := Option.some.inj h
              exact ⟨rfl, (Quiet.refl me w).restarts rfl⟩
          | first | prepare | test => cases h
      | lock | clamp | loop | unlockSleep | relock | produce | unlock | wake => cases h
  | readSpsc nonblock u pc =>
      cases pc with
      | wait pc =>
          cases pc with
          | asleep =>
              obtain rfl := Option.some.inj h
              exact ⟨rfl, (Quiet.refl me w).restarts rfl⟩
          | first | prepare | test => cases h
      | empty | emptyCons | sleep | consume | len | copy | publish | bytesLoad | bytesStore
      | msgsLoad | msgsStore | trace | wake => cases h
  | writeSpsc nonblock u pc =>
      cases pc with
      | wait pc =>
          cases pc with
          | asleep =>
              obtain rfl := Option.some.inj h
              exact ⟨rfl, (Quiet.refl me w).restarts rfl⟩
          | first | prepare | test => cases h
      | clamp | full | fullCons | sleep | produce | copy | setLen | publish | bytesLoad | bytesStore
      | msgsLoad | msgsStore | occ | peak | peakStore | wake => cases h
  | resize rq pc => cases pc <;> cases h
  | smode arg pc => cases pc <;> cases h
  | reset pc => cases pc <;> cases h
  | getstats fault pc => cases pc <;> cases h
  | poll pc => cases pc <;> cases h

theorem users_restarts {here : Local ⊕ Poller} {after : World × (Local ⊕ Poller)}
    (h : users me (.call .spurious) here w = some after) :
    busy here = true ∧ UserRestarts me w here after.1 after.2 := by
  rcases here with here | ⟨events, pc⟩
  · obtain ⟨⟨w', next⟩, hd, rfl⟩ := Option.map_eq_some_iff.mp h
    exact driver_restarts hd
  · cases pc with
    | asleep isEmpty isFull =>
        obtain rfl := Option.some.inj h
        have hmove : PollerMove events me w (.asleep isEmpty isFull) (w.rearm me) .sample := .again
        exact ⟨rfl, hmove.quiet.restarts rfl⟩
    | _ => cases h

variable {producer consumer n : Nat} {dev : Dev} {s t : UsersSystem}
  {acts : List (Act UserChoice)} {act : Act UserChoice} {next : World × (Local ⊕ Poller)}

theorem users_underway (hact : Underway act)
    (h : users act.pid act.choice (s.locals act.pid) s.shared = some next) :
    busy (s.locals act.pid) = true ∧
      (UserDescends act.pid s.shared (s.locals act.pid) next.1 next.2 ∨
        wakesOutOfTurn act = true ∧
          UserRestarts act.pid s.shared (s.locals act.pid) next.1 next.2) := by
  rcases hact with hgo | hsignal | hspurious
  · obtain ⟨hbusy, hdescends⟩ := users_descends (.inl hgo) h
    exact ⟨hbusy, .inl hdescends⟩
  · obtain ⟨hbusy, hdescends⟩ := users_descends (.inr hsignal) h
    exact ⟨hbusy, .inl hdescends⟩
  · rw [hspurious] at h
    obtain ⟨hbusy, hrestarts⟩ := users_restarts h
    exact ⟨hbusy, .inr ⟨by rw [wakesOutOfTurn, hspurious], hrestarts⟩⟩

-- Whoever is outside stays there.
def Outside (n : Nat) (s : UsersSystem) : Prop := ∀ p, n ≤ p → busy (s.locals p) = false

theorem Outside.pid_lt (h : Outside n s) (hact : Underway act)
    (hu : users act.pid act.choice (s.locals act.pid) s.shared = some next) : act.pid < n := by
  by_contra hle
  have hbusy := (users_underway hact hu).1
  rw [h act.pid (by omega)] at hbusy
  cases hbusy

theorem Outside.step (h : Outside n s) (hact : Underway act)
    (hstep : step users s act = some t) : Outside n t := by
  obtain ⟨next, hu, rfl⟩ := step_eq_some hstep
  have hlt := h.pid_lt hact hu
  intro p hp
  rw [State.put_locals_of_ne _ _ (by omega)]
  exact h p hp

theorem Outside.after (h : Outside n s) (hacts : ∀ act ∈ acts, Underway act)
    (hrun : run users s acts = some t) : Outside n t := by
  have hok : Along users (fun _ act => Underway act) s acts := along_of_mem fun _ => hacts
  exact run_invariant (fun _ _ _ hout hact hstep => Outside.step hout hact hstep) h hok hrun

theorem underway_starting {ok : Nat → Request → Prop} (h : ∀ act ∈ acts, Underway act) :
    Along users (UserStarting ok) s acts := by
  refine along_of_mem fun _ act hact request hr => ?_
  rcases h act hact with hown | hown | hown
  all_goals
    rw [hown] at hr
    cases hr

-- Without wakeups out of turn, the steps come to an end.
theorem exists_stalled (h : Outside n s) :
    ∃ rest t, (∀ act ∈ rest, act.choice = .call .go) ∧ run users s rest = some t ∧ Stalled t := by
  have hstays (s t : UsersSystem) (act : Act UserChoice) (hout : Outside n s)
      (hgo : act.choice = .call .go) (hs : step users s act = some t) : Outside n t :=
    hout.step (.inl hgo) hs
  obtain ⟨rest, t, hrest, hrun, hend⟩ := exists_final_run userRank_le
    (fun s act t => hstays s t act)
    (fun _ _ _ hout hgo hu => ⟨hout.pid_lt (.inl hgo) hu, (users_descends (.inl hgo) hu).2⟩) h
  refine ⟨rest, t, hrest, hrun, fun p _ => ?_⟩
  exact Option.map_eq_none_iff.mp (hend ⟨p, .call .go⟩ rfl)

-- The calls and polls under way come to rest, from any reachable state and in whatever order
-- the steps are taken, with signals at any time. What they can still do is bounded, and a
-- wakeup that no process has sent adds to the bound no more than one pass through a call.
-- Where nobody can go on, each has returned or sleeps for something that the ring does not
-- have, and from every state on the way such a place can be reached.
theorem users_come_to_rest (hdev : Wellformed dev) (hempty : queue dev = [])
    (hreq : Along users (UserStarting (PollMode dev.mode producer consumer)) (usersBoot dev) acts)
    (hrun : run users (usersBoot dev) acts = some s) (hout : Outside n s) :
    ∀ more t, (∀ act ∈ more, Underway act) → run users s more = some t →
      more.length ≤ potential userCredit userRank 18 n s + 19 * more.countP wakesOutOfTurn ∧
      (Stalled t → t.shared.lock = none ∧ ∀ p, busy (t.locals p) = true →
        asleep (t.locals p) = true ∧
          ∀ side, awaits side (t.locals p) = true → t.shared.dev.stuck side = true) ∧
      ∃ rest u, (∀ act ∈ rest, act.choice = .call .go) ∧ run users t rest = some u ∧
        Stalled u := by
  intro more t hmore hrun'
  refine ⟨?_, fun hstalled => ?_, exists_stalled (hout.after hmore hrun')⟩
  · have hle := run_length_le userRank_le (fun _ _ _ h hact hs => Outside.step h hact hs)
      (fun _ _ _ h hact hu => ⟨h.pid_lt hact hu, (users_underway hact hu).2⟩) hout hmore hrun'
    omega
  · have hinv : UserInv dev.mode producer consumer t := by
      refine userInv_run hdev hempty (hreq.append fun _ _ => ?_) (run_append_of_some hrun hrun')
      exact underway_starting hmore
    exact ⟨hstalled.lock_free hinv, fun p hp => hstalled.stuck hinv hp⟩

end Runs

-- A reader asleep on the empty ring, and a writer that has stored its message and still
-- holds the lock.
def messageForSleeper : List (Act UserChoice) :=
  ⟨1, .call (.start (.read false ⟨4, 4⟩))⟩ :: List.replicate 7 ⟨1, .call .go⟩ ++
    ⟨0, .call (.start (.write false ⟨[7], 1⟩))⟩ :: List.replicate 5 ⟨0, .call .go⟩

-- A signal to the reader before the writer has come round to waking it.
def signalSleeper : List (Act UserChoice) := [⟨1, .call .spurious⟩, ⟨1, .call .signal⟩]

theorem users_come_to_rest_messageForSleeper :
    ∃ s t, run users (usersBoot (emptyDev .BLOCKING 1 2)) messageForSleeper = some s ∧
      asleep (s.locals 1) = true ∧ potential userCredit userRank 18 2 s = 119 ∧
      (∀ more t, (∀ act ∈ more, Underway act) → run users s more = some t →
        more.length ≤ 119 + 19 * more.countP wakesOutOfTurn) ∧
      run users s signalSleeper = some t ∧ asleep (t.locals 1) = false ∧
      ∃ rest u, (∀ act ∈ rest, act.choice = .call .go) ∧ run users t rest = some u ∧
        Stalled u := by
  have hdev : Wellformed (emptyDev .BLOCKING 1 2) :=
    emptyDev_wellformed _ _ _ (by decide) (by decide) (by decide) (by decide) (by decide)
  obtain ⟨s, hrun, hend⟩ := Option.map_eq_some_iff.mp
    (show (run users (usersBoot (emptyDev .BLOCKING 1 2)) messageForSleeper).map
      (fun s => (asleep (s.locals 1), potential userCredit userRank 18 2 s,
        (run users s signalSleeper).map fun t => asleep (t.locals 1))) =
        some (true, 119, some false) from rfl)
  obtain ⟨hasleep, hrest⟩ := Prod.mk.inj hend
  obtain ⟨hpotential, hsignal⟩ := Prod.mk.inj hrest
  obtain ⟨t, ht, hawake⟩ := Option.map_eq_some_iff.mp hsignal
  have hacts (act : Act UserChoice) (hact : act ∈ messageForSleeper) : act.pid < 2 ∧
      ∀ request, act.choice = .call (.start request) → StaysBlocking act.pid request := by
    simp only [messageForSleeper, List.cons_append, List.mem_cons, List.mem_append,
      List.mem_replicate] at hact
    rcases hact with rfl | ⟨-, rfl⟩ | rfl | ⟨-, rfl⟩ <;>
      exact ⟨by decide, fun request hr => by cases hr <;> trivial⟩
  have hout : Outside 2 s := by
    intro p hp
    rw [run_locals_of_ne hrun fun act hact => by have := (hacts act hact).1; omega]
    rfl
  have hreq : Along users (UserStarting (PollMode .BLOCKING 0 1))
      (usersBoot (emptyDev .BLOCKING 1 2)) messageForSleeper :=
    along_of_mem fun _ act hact => (hacts act hact).2
  have hunderway : ∀ act ∈ signalSleeper, Underway act := by
    intro act hact
    simp only [signalSleeper, List.mem_cons, List.not_mem_nil, or_false] at hact
    rcases hact with rfl | rfl
    · exact .inr (.inr rfl)
    · exact .inr (.inl rfl)
  have hrests := users_come_to_rest hdev rfl hreq hrun hout
  refine ⟨s, t, hrun, hasleep, hpotential, fun more v hmore hv => ?_, ht, hawake,
    (hrests signalSleeper t hunderway ht).2.2⟩
  rw [← hpotential]
  exact (hrests more v hmore hv).1

end Kbuf
