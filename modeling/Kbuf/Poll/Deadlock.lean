import Kbuf.Poll.Wakeup

namespace Kbuf

open Interleaving

section Definitions

-- Inside a call or in poll(2).
def busy : Local ⊕ Poller → Bool
  | .inl .idle | .inl (.done _) | .inr ⟨_, .returned _⟩ => false
  | _ => true

-- Which side of the ring a sleeping process waits for.
def awaits (side : Wq) : Local ⊕ Poller → Bool
  | .inl here => here.parkedOn side
  | .inr ⟨events, .asleep ..⟩ => events &&& side.events ≠ 0
  | _ => false

def asleep : Local ⊕ Poller → Bool
  | .inl here => here.parkedOn .read || here.parkedOn .write
  | .inr ⟨_, .asleep ..⟩ => true
  | _ => false

end Definitions

section Enabled

variable {me : Nat} {w : World}

theorem waitEvent_go {wq : Wq} {cond : Dev → Bool} {pc : WaitPc}
    (hawake : pc = .asleep → me ∉ w.waiters wq) :
    (waitEvent wq cond me w pc .go).isSome = true := by
  cases pc with
  | first | prepare => rfl
  | test =>
      simp only [waitEvent]
      split <;> rfl
  | asleep => simp [waitEvent, hawake rfl]

theorem readBlockingStep_go {nonblock : Bool} {u : UserRead} {pc : ReadPc}
    (hlock : pc.holds = false → w.lock = none)
    (hawake : pc = .wait .asleep → me ∉ w.waiters .read) :
    (readBlockingStep nonblock u me w pc .go).isSome = true := by
  cases pc with
  | lock => simp [readBlockingStep, World.acquire, hlock rfl]
  | loop =>
      simp only [readBlockingStep]
      split
      · split <;> rfl
      · rfl
  | wait pc =>
      simp only [readBlockingStep, Option.isSome_map]
      exact waitEvent_go fun h => hawake (by rw [h])
  | unlockSleep | consume | unlock | wake => rfl

theorem writeBlockingStep_go {nonblock : Bool} {u : UserWrite} {pc : WritePc}
    (hlock : pc.holds = false → w.lock = none)
    (hawake : pc = .wait .asleep → me ∉ w.waiters .write) :
    (writeBlockingStep nonblock u me w pc .go).isSome = true := by
  cases pc with
  | lock | relock => simp [writeBlockingStep, World.acquire, hlock rfl]
  | loop =>
      simp only [writeBlockingStep]
      split
      · split <;> rfl
      · rfl
  | wait pc =>
      simp only [writeBlockingStep, Option.isSome_map]
      exact waitEvent_go fun h => hawake (by rw [h])
  | clamp | unlockSleep | produce | unlock | wake => rfl

theorem readSpscStep_go {nonblock : Bool} {u : UserRead} {pc : SpscReadPc}
    (hawake : pc = .wait .asleep → me ∉ w.waiters .read) :
    (readSpscStep nonblock u me w pc .go).isSome = true := by
  cases pc with
  | emptyCons =>
      simp only [readSpscStep]
      split
      · split <;> rfl
      · rfl
  | wait pc =>
      simp only [readSpscStep, Option.isSome_map]
      exact waitEvent_go fun h => hawake (by rw [h])
  | copy =>
      simp only [readSpscStep]
      split
      · split <;> rfl
      · rfl
  | empty | sleep | consume | len | publish | bytesLoad | bytesStore | msgsLoad | msgsStore | trace
  | wake => rfl

theorem writeSpscStep_go {nonblock : Bool} {u : UserWrite} {pc : SpscWritePc}
    (hawake : pc = .wait .asleep → me ∉ w.waiters .write) :
    (writeSpscStep nonblock u me w pc .go).isSome = true := by
  cases pc with
  | fullCons =>
      simp only [writeSpscStep]
      split
      · split <;> rfl
      · rfl
  | wait pc =>
      simp only [writeSpscStep, Option.isSome_map]
      exact waitEvent_go fun h => hawake (by rw [h])
  | copy =>
      simp only [writeSpscStep]
      split
      · rfl
      · split <;> rfl
  | peak =>
      simp only [writeSpscStep]
      split <;> rfl
  | clamp | full | sleep | produce | setLen | publish | bytesLoad | bytesStore | msgsLoad
  | msgsStore | occ | peakStore | wake => rfl

theorem resizeStep_go {rq : ResizeArg} {pc : ResizePc}
    (hlock : pc.holds = false → w.lock = none) : (resizeStep rq me w pc .go).isSome = true := by
  cases pc with
  | lock => simp [resizeStep, World.acquire, hlock rfl]
  | check | alloc | swap =>
      simp only [resizeStep]
      split <;> rfl
  | unlockBusy | freeNew | unlock | freeOld | wake => rfl

theorem smodeStep_go {arg : SmodeArg} {pc : SmodePc} (hlock : pc.holds = false → w.lock = none) :
    (smodeStep arg me w pc .go).isSome = true := by
  cases pc with
  | lock => simp [smodeStep, World.acquire, hlock rfl]
  | check | switch =>
      simp only [smodeStep]
      split <;> rfl
  | unlock => rfl

theorem getstatsStep_go {fault : Bool} {pc : GetstatsPc}
    (hlock : pc.holds = false → w.lock = none) :
    (getstatsStep fault me w pc .go).isSome = true := by
  cases pc with
  | lock => simp [getstatsStep, World.acquire, hlock rfl]
  | load =>
      simp only [getstatsStep]
      split <;> rfl
  | occ | unlock => rfl

theorem pollStep_go {pc : PollPc} (hlock : pc.holds = false → w.lock = none) :
    (pollStep me w pc .go).isSome = true := by
  cases pc with
  | lock => simp [pollStep, World.acquire, hlock rfl]
  | sample =>
      simp only [pollStep]
      split <;> rfl
  | spscFull | test | unlock => rfl

-- A call can always take its next step, unless it needs the lock and somebody else has it,
-- or it sleeps and has not been woken.
theorem driver_go {here : Local} (hbusy : busy (.inl here) = true)
    (hlock : here.holds = false → w.lock = none)
    (hawake : ∀ side, here.parkedOn side = true → me ∉ w.waiters side) :
    (driver me .go here w).isSome = true := by
  cases here with
  | idle | done => cases hbusy
  | readEntry | writeEntry =>
      simp only [driver, sampleStep]
      split <;> rfl
  | readBlocking nonblock u pc =>
      simp only [driver, Option.isSome_map]
      exact readBlockingStep_go hlock fun h => hawake .read (by rw [h]; rfl)
  | writeBlocking nonblock u pc =>
      simp only [driver, Option.isSome_map]
      exact writeBlockingStep_go hlock fun h => hawake .write (by rw [h]; rfl)
  | readSpsc nonblock u pc =>
      simp only [driver, Option.isSome_map]
      exact readSpscStep_go fun h => hawake .read (by rw [h]; rfl)
  | writeSpsc nonblock u pc =>
      simp only [driver, Option.isSome_map]
      exact writeSpscStep_go fun h => hawake .write (by rw [h]; rfl)
  | resize rq pc =>
      simp only [driver, Option.isSome_map]
      exact resizeStep_go hlock
  | smode arg pc =>
      simp only [driver, Option.isSome_map]
      exact smodeStep_go hlock
  | reset pc =>
      simp only [driver, Option.isSome_map]
      cases pc with
      | lock => simp [resetStep, World.acquire, hlock rfl]
      | store | unlock => rfl
  | getstats fault pc =>
      simp only [driver, Option.isSome_map]
      exact getstatsStep_go hlock
  | poll pc =>
      simp only [driver, Option.isSome_map]
      exact pollStep_go hlock

theorem pollerStep_go {events : BitVec 32} {pc : PollerPc}
    (hbusy : busy (.inr ⟨events, pc⟩) = true) (hlock : pc.driving.holds = false → w.lock = none)
    (hawake : ∀ isEmpty isFull, pc = .asleep isEmpty isFull → ∃ side, me ∉ w.waiters side) :
    (pollerStep events me w pc .go).isSome = true := by
  cases pc with
  | returned => cases hbusy
  | lock => simp [pollerStep, World.acquire, hlock rfl]
  | sample =>
      simp only [pollerStep]
      split <;> rfl
  | check =>
      simp only [pollerStep]
      split <;> rfl
  | asleep isEmpty isFull =>
      simp only [pollerStep]
      obtain ⟨side, hside⟩ := hawake isEmpty isFull rfl
      rw [if_neg]
      · rfl
      · rintro ⟨hread, hwrite⟩
        cases side with
        | read => exact hside hread
        | write => exact hside hwrite
  | queueRead | queueWrite | empty | emptyCons | full | fullCons | test | unlock | leaveRead
  | leaveWrite => rfl

end Enabled

section Stalled

variable {mode : Mode} {producer consumer : Nat} {dev : Dev} {s : UsersSystem}
  {acts : List (Act UserChoice)}

-- Nobody who is inside the driver or in poll(2) can go on.
def Stalled (s : UsersSystem) : Prop :=
  ∀ p, busy (s.locals p) = true → users p (.call .go) (s.locals p) s.shared = none

theorem Stalled.call {p : Nat} {here : Local} (h : Stalled s) (hhere : s.locals p = .inl here)
    (hbusy : busy (.inl here) = true) (hlock : here.holds = false → s.shared.lock = none) :
    ∃ side, here.parkedOn side = true ∧ p ∈ s.shared.waiters side := by
  by_contra hnone
  have hgo : (driver p .go here s.shared).isSome = true :=
    driver_go hbusy hlock fun side hparked hmem => hnone ⟨side, hparked, hmem⟩
  have hstop := h p (by rw [hhere]; exact hbusy)
  rw [hhere] at hstop
  have hmap : (driver p .go here s.shared).map (Prod.map id .inl) =
      (none : Option (World × (Local ⊕ Poller))) := hstop
  rw [Option.map_eq_none_iff.mp hmap] at hgo
  cases hgo

theorem Stalled.poll {p : Nat} {events : BitVec 32} {pc : PollerPc} (h : Stalled s)
    (hhere : s.locals p = .inr ⟨events, pc⟩) (hbusy : busy (.inr ⟨events, pc⟩) = true)
    (hlock : pc.driving.holds = false → s.shared.lock = none) :
    (∃ isEmpty isFull, pc = .asleep isEmpty isFull) ∧ ∀ side, p ∈ s.shared.waiters side := by
  by_contra hnone
  have hgo : (pollerStep events p s.shared pc .go).isSome = true := by
    refine pollerStep_go hbusy hlock fun isEmpty isFull hpc => ?_
    by_contra hall
    refine hnone ⟨⟨isEmpty, isFull, hpc⟩, fun side => ?_⟩
    by_contra hside
    exact hall ⟨side, hside⟩
  have hstop := h p (by rw [hhere]; exact hbusy)
  rw [hhere] at hstop
  have hmap : (pollerStep events p s.shared pc .go).map
      (Prod.map id fun pc => (Sum.inr ⟨events, pc⟩ : Local ⊕ Poller)) = none := by
    cases pc with
    | returned => cases hbusy
    | _ => exact hstop
  rw [Option.map_eq_none_iff.mp hmap] at hgo
  cases hgo

theorem busy_of_holds {here : Local} (h : here.holds = true) : busy (.inl here) = true := by
  cases here with
  | idle | done => cases h
  | _ => rfl

theorem busy_of_owes {here : Local} {side : Wq} (h : here.owesWake side = true) :
    busy (.inl here) = true := by
  cases here with
  | idle | done => cases side <;> cases h
  | _ => rfl

theorem parkedOn_of_holds {here : Local} (h : here.holds = true) (side : Wq) :
    here.parkedOn side = false := by
  unfold Local.parkedOn
  split <;> first | rfl | cases h

theorem parkedOn_of_owes {here : Local} {side : Wq} (h : here.owesWake side = true) (other : Wq) :
    here.parkedOn other = false := by
  unfold Local.parkedOn
  split <;> first | rfl | cases side <;> cases h

theorem parkedOn_write_of_read {here : Local} (h : here.parkedOn .read = true) :
    here.parkedOn .write = false := by
  cases here with
  | readBlocking | readSpsc => rfl
  | _ => cases h

theorem eq_of_parkedOn {here : Local} {side other : Wq} (h : here.parkedOn side = true)
    (h' : here.parkedOn other = true) : side = other := by
  cases side <;> cases other
  · rfl
  · rw [parkedOn_write_of_read h] at h'
    cases h'
  · rw [parkedOn_write_of_read h'] at h
    cases h
  · rfl

theorem busy_of_awaits {side : Wq} {here : Local ⊕ Poller} (h : awaits side here = true) :
    busy here = true := by
  rcases here with here | ⟨events, pc⟩
  · cases here with
    | idle | done => cases side <;> cases h
    | _ => rfl
  · cases pc with
    | returned => cases h
    | _ => rfl

-- The holder of the lock is never the one that waits.
theorem Stalled.lock_free (hinv : UserInv mode producer consumer s) (h : Stalled s) :
    s.shared.lock = none := by
  cases hlock : s.shared.lock with
  | none => rfl
  | some p =>
      exfalso
      have hholds : (driving (s.locals p)).holds = true := (hinv.lock p).mpr hlock
      rcases hhere : s.locals p with here | ⟨events, pc⟩
      · have hholds : here.holds = true := by rw [hhere] at hholds; exact hholds
        obtain ⟨side, hparked, -⟩ := h.call hhere (busy_of_holds hholds) fun hn => by
          rw [hholds] at hn
          cases hn
        rw [parkedOn_of_holds hholds] at hparked
        cases hparked
      · have hholds : pc.driving.holds = true := by rw [hhere] at hholds; exact hholds
        have hbusy : busy (.inr ⟨events, pc⟩) = true := by
          cases pc with
          | returned => cases hholds
          | _ => rfl
        obtain ⟨⟨isEmpty, isFull, rfl⟩, -⟩ := h.poll hhere hbusy fun hn => by
          rw [hholds] at hn
          cases hn
        cases hholds

-- Whoever owes a wakeup can go on.
theorem Stalled.no_owed (hinv : UserInv mode producer consumer s) (h : Stalled s) {side : Wq}
    {q : Nat} (howes : (driving (s.locals q)).owesWake side = true) : False := by
  have hlock := h.lock_free hinv
  rcases hhere : s.locals q with here | ⟨events, pc⟩
  · have howes : here.owesWake side = true := by rw [hhere] at howes; exact howes
    obtain ⟨other, hparked, -⟩ := h.call hhere (busy_of_owes howes) fun _ => hlock
    rw [parkedOn_of_owes howes] at hparked
    cases hparked
  · rw [hhere] at howes
    cases pc <;> cases side <;> cases howes

theorem Stalled.stuck (hinv : UserInv mode producer consumer s) (h : Stalled s) {p : Nat}
    (hbusy : busy (s.locals p) = true) :
    asleep (s.locals p) = true ∧
      ∀ side, awaits side (s.locals p) = true → s.shared.dev.stuck side = true := by
  have hlock := h.lock_free hinv
  rcases hhere : s.locals p with here | ⟨events, pc⟩
  · rw [hhere] at hbusy
    obtain ⟨side, hparked, hmem⟩ := h.call hhere hbusy fun _ => hlock
    refine ⟨?_, fun other hawaits => ?_⟩
    · cases side with
      | read => simp [asleep, hparked]
      | write => simp [asleep, hparked]
    · obtain rfl := eq_of_parkedOn hparked hawaits
      rcases hinv.owed side p hmem with hbelief | ⟨q, hq⟩
      · rw [hhere] at hbelief
        exact hbelief hparked
      · exact (h.no_owed hinv hq).elim
  · rw [hhere] at hbusy
    obtain ⟨⟨isEmpty, isFull, rfl⟩, hmem⟩ := h.poll hhere hbusy fun _ => hlock
    refine ⟨rfl, fun side hawaits => ?_⟩
    by_contra hready
    obtain ⟨q, there, hq, howes⟩ := hinv.poll_owed hhere (of_decide_eq_true hawaits) (hmem side)
      (Bool.eq_false_iff.mpr hready)
    exact h.no_owed hinv (q := q) (by rw [hq]; exact howes)

-- A ring is not empty and full at once.
theorem UserInv.not_both (hinv : UserInv mode producer consumer s)
    (hread : s.shared.dev.stuck .read = true) : s.shared.dev.stuck .write = false := by
  cases hm : mode with
  | BLOCKING =>
      have hmode := hinv.mode_eq.trans hm
      refine stuck_write_of_empty hmode (hinv.blocking hm).1.bounds ?_
      have hzero : s.shared.dev.count = 0 := by simpa [Dev.stuck, hmode, ringIsEmpty] using hread
      simp [occupancy, hmode, hzero, toUnsigned]
  | SPSC =>
      have hmode := hinv.mode_eq.trans hm
      have hpos : 1 ≤ s.shared.dev.numBuffers := (hinv.spsc hm).ring.geometry.num_pos
      have heq : s.shared.dev.prodIdx = s.shared.dev.consIdx := by
        simpa [Dev.stuck, hmode, spscIsEmpty] using hread
      simp only [Dev.stuck, hmode, spscIsFull, heq, BitVec.sub_self, decide_eq_false_iff_not]
      simp
      omega

-- The only way in which everybody inside is kept waiting: all of them sleep, each for
-- something that the ring does not have, and never both for messages and for room.
theorem users_no_deadlock (hdev : Wellformed dev) (hempty : queue dev = [])
    (hreq : Along users (UserStarting (PollMode dev.mode producer consumer)) (usersBoot dev) acts)
    (hrun : run users (usersBoot dev) acts = some s) (hstalled : Stalled s) :
    s.shared.lock = none ∧
      (∀ p, busy (s.locals p) = true → asleep (s.locals p) = true ∧
        ∀ side, awaits side (s.locals p) = true → s.shared.dev.stuck side = true) ∧
      ∀ p q, awaits .read (s.locals p) = true → awaits .write (s.locals q) = false := by
  have hinv := userInv_run hdev hempty hreq hrun
  refine ⟨hstalled.lock_free hinv, fun p hp => hstalled.stuck hinv hp, fun p q hp => ?_⟩
  by_contra hq
  have hq : awaits .write (s.locals q) = true := by simpa using hq
  have hread := (hstalled.stuck hinv (busy_of_awaits hp)).2 .read hp
  have hwrite := (hstalled.stuck hinv (busy_of_awaits hq)).2 .write hq
  rw [hinv.not_both hread] at hwrite
  cases hwrite

end Stalled

-- A read and a poll for input, both asleep on an empty ring.
def waitingForInput : List (Act UserChoice) :=
  ⟨1, .call (.start (.read false ⟨4, 4⟩))⟩ :: List.replicate 7 ⟨1, .call .go⟩ ++
    ⟨2, .poll EPOLLIN⟩ :: List.replicate 7 ⟨2, .call .go⟩

theorem users_no_deadlock_waitingForInput :
    ∃ s, run users (usersBoot (emptyDev .BLOCKING 1 2)) waitingForInput = some s ∧ Stalled s ∧
      awaits .read (s.locals 1) = true ∧ awaits .read (s.locals 2) = true ∧
      s.shared.lock = none ∧ s.shared.dev.stuck .read = true := by
  have hdev : Wellformed (emptyDev .BLOCKING 1 2) :=
    emptyDev_wellformed _ _ _ (by decide) (by decide) (by decide) (by decide) (by decide)
  obtain ⟨s, hrun, hend⟩ := Option.map_eq_some_iff.mp
    (show (run users (usersBoot (emptyDev .BLOCKING 1 2)) waitingForInput).map
      (fun s => (s.locals 1, s.locals 2, s.shared.readWq, s.shared.writeWq)) =
        some (.inl (.readBlocking false ⟨4, 4⟩ (.wait .asleep)),
          .inr ⟨EPOLLIN, .asleep true false⟩, [2, 1], [2]) from rfl)
  obtain ⟨hreader, hrest⟩ := Prod.mk.inj hend
  obtain ⟨hpoller, hrest⟩ := Prod.mk.inj hrest
  obtain ⟨hreadWq, hwriteWq⟩ := Prod.mk.inj hrest
  have hstalled : Stalled s := by
    intro p hbusy
    by_cases hone : p = 1
    · subst hone
      rw [hreader]
      simp [users, driver, readBlockingStep, waitEvent, World.waiters, hreadWq]
    · by_cases htwo : p = 2
      · subst htwo
        rw [hpoller]
        simp [users, pollerStep, World.waiters, hreadWq, hwriteWq]
      · rw [run_locals_of_ne hrun fun act hact => ?_] at hbusy
        · cases hbusy
        · simp only [waitingForInput, List.cons_append, List.mem_cons, List.mem_append,
            List.mem_replicate] at hact
          rcases hact with rfl | ⟨-, rfl⟩ | rfl | ⟨-, rfl⟩
          · exact Ne.symm hone
          · exact Ne.symm hone
          · exact Ne.symm htwo
          · exact Ne.symm htwo
  have hreq : Along users (UserStarting (PollMode .BLOCKING 0 1))
      (usersBoot (emptyDev .BLOCKING 1 2)) waitingForInput := by
    refine along_of_mem fun _ act hact request hr => ?_
    simp only [waitingForInput, List.cons_append, List.mem_cons, List.mem_append,
      List.mem_replicate] at hact
    rcases hact with rfl | ⟨-, rfl⟩ | rfl | ⟨-, rfl⟩
    · cases hr
      trivial
    · cases hr
    · cases hr
    · cases hr
  have hawaits : awaits .read (s.locals 1) = true := by rw [hreader]; rfl
  obtain ⟨hlock, hstuck, -⟩ := users_no_deadlock hdev rfl hreq hrun hstalled
  exact ⟨s, hrun, hstalled, hawaits, by rw [hpoller]; rfl, hlock,
    (hstuck 1 (busy_of_awaits hawaits)).2 .read hawaits⟩

end Kbuf
