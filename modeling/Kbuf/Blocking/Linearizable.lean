import Kbuf.Blocking.Invariant
import Kbuf.Machine.Span

namespace Kbuf

open Interleaving

variable {n size : Nat}

-- The device was in such a state at some moment of these steps.
def During (start : System) (acts : List (Act Choice)) (cond : Dev → Bool) : Prop :=
  ∃ first rest mid, acts = first ++ rest ∧ run driver start first = some mid ∧
    cond mid.shared.dev = true

-- What a read of process `p` may return, given the messages it took. `seen`
-- says that the ring was empty at some moment of the call.
def ReadOutcome (p : Nat) (u : UserRead) (seen : Prop) (events : List Event) : Ret → Prop
  | .bytes (.ok len) out => events = [.consumed p u.count out] ∧ len = out.length
  | .bytes (.error e) _ => events = [] ∧ (e = .EAGAIN → seen)
  | _ => False

-- What a write of `message` by process `p` may return, given the messages it added.
def WriteOutcome (p : Nat) (message : List UInt8) (seen : Prop) (events : List Event) : Ret → Prop
  | .size (.ok len) => events = [.produced p message] ∧ len = message.length
  | .size (.error e) => events = [] ∧ (e = .EAGAIN → seen)
  | _ => False

-- The part of a write that fits in a slot.
def UserWrite.message (u : UserWrite) (size : Nat) : List UInt8 := u.ubuf.take (min u.count size)

section Progress

-- How far a read has got, and what it has taken.
def Local.InRead (p : Nat) (u : UserRead) (seen : Prop) (events : List Event) : Local → Prop
  | .readEntry _ v => v = u ∧ events = []
  | .readBlocking _ v (.unlock ret) => v = u ∧ ReadOutcome p u seen events ret
  | .readBlocking _ v (.wake ret) => v = u ∧ ReadOutcome p u seen events ret
  | .readBlocking _ v _ => v = u ∧ events = []
  | .done ret => ReadOutcome p u seen events ret
  | _ => False

-- How far a write has got, and what it has added.
def Local.InWrite (p size : Nat) (u : UserWrite) (seen : Prop) (events : List Event) : Local → Prop
  | .writeEntry _ v => v = u ∧ events = []
  | .writeBlocking _ v pc =>
      v.ubuf = u.ubuf ∧ v.count = (if pc.clamped then min u.count size else u.count) ∧
        match pc with
        | .unlock ret => WriteOutcome p (u.message size) seen events ret
        | .wake ret => WriteOutcome p (u.message size) seen events ret
        | _ => events = []
  | .done ret => WriteOutcome p (u.message size) seen events ret
  | _ => False

variable {p : Nat} {seen seen' : Prop} {events : List Event} {here : Local}

theorem ReadOutcome.mono {u : UserRead} {ret : Ret} (hs : seen → seen')
    (h : ReadOutcome p u seen events ret) : ReadOutcome p u seen' events ret := by
  unfold ReadOutcome at h ⊢
  split at h
  · exact h
  · exact ⟨h.1, fun he => hs (h.2 he)⟩
  · exact h

theorem WriteOutcome.mono {message : List UInt8} {ret : Ret} (hs : seen → seen')
    (h : WriteOutcome p message seen events ret) : WriteOutcome p message seen' events ret := by
  unfold WriteOutcome at h ⊢
  split at h
  · exact h
  · exact ⟨h.1, fun he => hs (h.2 he)⟩
  · exact h

theorem Local.InRead.mono {u : UserRead} (hs : seen → seen') (h : here.InRead p u seen events) :
    here.InRead p u seen' events := by
  unfold Local.InRead at h ⊢
  split at h
  · exact h
  · exact ⟨h.1, h.2.mono hs⟩
  · exact ⟨h.1, h.2.mono hs⟩
  · exact h
  · exact h.mono hs
  · exact h

theorem Local.InWrite.mono {u : UserWrite} (hs : seen → seen')
    (h : here.InWrite p size u seen events) : here.InWrite p size u seen' events := by
  unfold Local.InWrite at h ⊢
  split at h
  · exact h
  · refine ⟨h.1, h.2.1, ?_⟩
    have hpc := h.2.2
    split at hpc
    · exact hpc.mono hs
    · exact hpc.mono hs
    · exact hpc
  · exact h.mono hs
  · exact h

end Progress

section Steps

variable {p : Nat} {seen : Prop} {events : List Event} {w w' : World} {here next : Local}

theorem ReadMove.inRead {nonblock : Bool} {u v : UserRead} {pc : ReadPc} {after : Next ReadPc}
    (hd : BlockingDev n size w.dev) (hc : (Local.readBlocking nonblock v pc).Checked w.dev)
    (hcall : (Local.readBlocking nonblock v pc).InRead p u seen events)
    (hseen : ringIsEmpty w.dev = true → seen) (h : ReadMove nonblock v p w pc w' after) :
    Extends p w w' events fun events =>
      (after.lift (.readBlocking nonblock v)).InRead p u seen events := by
  cases h with
  | lock | ready | unlockSleep => exact .quiet rfl hcall
  | sleep => exact .quiet rfl hcall
  | lockSignal => exact .quiet rfl ⟨hcall.2, fun he => by cases he⟩
  | again he => exact .quiet rfl ⟨hcall.1, hcall.2, fun _ => hseen he⟩
  | @wait _ _ out hw =>
      refine .quiet hw.log_eq ?_
      cases out with
      | wait | woken => exact hcall
      | interrupted => exact ⟨hcall.2, fun he => by cases he⟩
  | consume =>
      obtain ⟨rfl, rfl⟩ := hcall
      rcases consumeStep_cases hd hc v with ⟨out, hs⟩ | ⟨dev, message, -, -, hs⟩
      · rw [hs]
        exact .quiet rfl ⟨rfl, rfl, fun he => by cases he⟩
      · rw [hs]
        exact .event _ rfl rfl ⟨rfl, rfl, rfl⟩
  | unlockOk => exact .quiet rfl hcall
  | unlockError | wake => exact .quiet rfl hcall.2

theorem WriteMove.inWrite {nonblock : Bool} {u v : UserWrite} {pc : WritePc}
    {after : Next (UserWrite × WritePc)} (hd : BlockingDev n size w.dev)
    (hc : (Local.writeBlocking nonblock v pc).Checked w.dev)
    (hcall : (Local.writeBlocking nonblock v pc).InWrite p size u seen events)
    (hseen : ringIsFull w.dev = true → seen) (h : WriteMove nonblock v p w pc w' after) :
    Extends p w w' events fun events =>
      (after.lift fun (u, pc) => Local.writeBlocking nonblock u pc).InWrite p size u seen
        events := by
  obtain ⟨hubuf, hcount, hpc⟩ := hcall
  cases h with
  | lock => exact .quiet rfl ⟨hubuf, hcount, hpc⟩
  | lockSignal | relockSignal => exact .quiet rfl ⟨hpc, fun he => by cases he⟩
  | clamp =>
      refine .quiet rfl ⟨hubuf, ?_, hpc⟩
      have hv : v.count = u.count := hcount
      simp only [UserWrite.clamp, WritePc.clamped, hv, hd.size, ite_true]
      split <;> omega
  | again he => exact .quiet rfl ⟨hubuf, hcount, hpc, fun _ => hseen he⟩
  | sleep | ready | unlockSleep | relock => exact .quiet rfl ⟨hubuf, hcount, hpc⟩
  | @wait _ _ out hw =>
      refine .quiet hw.log_eq ?_
      cases out with
      | wait | woken => exact ⟨hubuf, hcount, hpc⟩
      | interrupted => exact ⟨hpc, fun he => by cases he⟩
  | produce =>
      have hv : v.count = min u.count size := hcount
      obtain rfl : events = [] := hpc
      have hmsg : v.ubuf.take v.count = u.message size := by
        rw [hubuf, hv, UserWrite.message]
      rcases produceStep_cases hd hc v (by omega) with ⟨dev, -, -, hs⟩ | ⟨dev, -, -, hlen, hs⟩
      · rw [hs]
        exact .quiet rfl ⟨hubuf, hcount, rfl, fun he => by cases he⟩
      · rw [hs]
        refine .event _ rfl rfl ⟨hubuf, hcount, ?_, ?_⟩
        · rw [hmsg]
          rfl
        · rw [← hmsg, List.length_take, Nat.min_eq_left hlen]
  | unlockOk => exact .quiet rfl ⟨hubuf, hcount, hpc⟩
  | unlockError | wake => exact .quiet rfl hpc

end Steps

section Calls

variable {p : Nat} {start s t : System}

def Local.InCall (p size : Nat) (start : System) (past : List (Act Choice)) (events : List Event)
    (here : Local) : Request → Prop
  | .read _ u => here.InRead p u (During start past ringIsEmpty) events
  | .write _ u => here.InWrite p size u (During start past ringIsFull) events
  | _ => False

theorem During.snoc {past : List (Act Choice)} {cond : Dev → Bool} (act : Act Choice)
    (h : During start past cond) : During start (past ++ [act]) cond := by
  obtain ⟨first, rest, mid, rfl, hmid, hcond⟩ := h
  exact ⟨first, rest ++ [act], mid, List.append_assoc .., hmid, hcond⟩

theorem During.now {past : List (Act Choice)} {cond : Dev → Bool}
    (hrun : run driver start past = some s) (h : cond s.shared.dev = true) :
    During start past cond :=
  ⟨past, [], s, (List.append_nil past).symm, hrun, h⟩

theorem Local.InCall.snoc {past : List (Act Choice)} {events : List Event} {here : Local}
    {request : Request} (act : Act Choice) (h : here.InCall p size start past events request) :
    here.InCall p size start (past ++ [act]) events request := by
  cases request with
  | read => exact Local.InRead.mono (During.snoc act) h
  | write => exact Local.InWrite.mono (During.snoc act) h
  | resize | smode | reset | getstats | poll => exact h

-- One step of the call's own process.
theorem Move.inCall {w' : World} {next : Local} {past : List (Act Choice)} {events : List Event}
    {request : Request} {choice : Choice} (hinv : BlockingInv n size s)
    (hrun : run driver start past = some s)
    (hcall : (s.locals p).InCall p size start past events request)
    (hnew : ∀ other, choice ≠ .start other)
    (h : Move p s.shared choice (s.locals p) w' next) :
    Extends p s.shared w' events fun events => next.InCall p size start past events request := by
  have hmode := hinv.dev.mode
  have hc := hinv.count.checked p
  cases request with
  | read nonblock u =>
      change Local.InRead p u _ events (s.locals p) at hcall
      generalize s.locals p = here at hcall hc h
      cases h with
      | enter => exact absurd rfl (hnew _)
      | readSampleSpsc hm => rw [hmode] at hm; cases hm
      | readSampleBlocking => exact .quiet rfl hcall
      | readBlocking h => exact h.inRead hinv.dev hc hcall (During.now hrun)
      | writeSampleSpsc | writeSampleBlocking | writeBlocking | readSpsc | writeSpsc | resize
      | smode | reset | getstats | poll => exact hcall.elim
  | write nonblock u =>
      change Local.InWrite p size u _ events (s.locals p) at hcall
      generalize s.locals p = here at hcall hc h
      cases h with
      | enter => exact absurd rfl (hnew _)
      | writeSampleSpsc hm => rw [hmode] at hm; cases hm
      | writeSampleBlocking =>
          obtain ⟨rfl, hevents⟩ := hcall
          exact .quiet rfl ⟨rfl, rfl, hevents⟩
      | writeBlocking h => exact h.inWrite hinv.dev hc hcall (During.now hrun)
      | readSampleSpsc | readSampleBlocking | readBlocking | readSpsc | writeSpsc | resize
      | smode | reset | getstats | poll => exact hcall.elim
  | resize | smode | reset | getstats | poll => exact hcall.elim

-- The invariant of a call of process `p` that has taken the steps `past` of
-- everybody since it started.
structure CallInv (n size p : Nat) (start : System) (request : Request) (past : List (Act Choice))
    (s : System) : Prop where
  inv : BlockingInv n size s
  reached : run driver start past = some s
  progress : Extends p start.shared s.shared [] fun events =>
    (s.locals p).InCall p size start past events request

-- Reads and writes only, and no new call by process `p`.
def Continuing (p : Nat) : System → Act Choice → Prop :=
  Starting fun q request => request.isTransfer = true ∧ q ≠ p

theorem callInv_step {request : Request} {past : List (Act Choice)} {act : Act Choice}
    (hcall : CallInv n size p start request past s) (hok : Continuing p s act)
    (h : step driver s act = some t) : CallInv n size p start request (past ++ [act]) t := by
  have hinv := blockingInv_step hcall.inv (fun request hr => (hok request hr).1) h
  have hrun : run driver start (past ++ [act]) = some t := by
    rw [run_append, hcall.reached]
    simp only [Option.bind_some, run, h]
  obtain ⟨w, next, hmove, rfl⟩ := step_move h
  obtain ⟨events, hevents, hprogress⟩ := hcall.progress
  refine ⟨hinv, hrun, ?_⟩
  by_cases hp : act.pid = p
  · subst hp
    obtain ⟨more, hmore, hnext⟩ := hmove.inCall hcall.inv hcall.reached hprogress
      fun other ho => (hok other ho).2 rfl
    refine ⟨events ++ more, ?_, ?_⟩
    · rw [← List.append_assoc, ← hevents]
      exact hmore
    · rw [State.put_locals_self]
      exact Local.InCall.snoc act hnext
  · refine ⟨events, ?_, ?_⟩
    · rw [← hevents]
      exact hmove.eventsOf_other (Ne.symm hp)
    · rw [State.put_locals_of_ne _ _ (Ne.symm hp)]
      exact Local.InCall.snoc act hprogress

theorem callInv_start {request : Request} (hinv : BlockingInv n size start)
    (henter : start.locals p = request.enter) (hreq : request.isTransfer = true) :
    CallInv n size p start request [] start := by
  refine ⟨hinv, rfl, ⟨[], (List.append_nil _).symm, ?_⟩⟩
  rw [henter]
  cases request with
  | read | write => exact ⟨rfl, rfl⟩
  | resize | smode | reset | getstats | poll => cases hreq

end Calls

-- What a call of process `p` did between its start and its return.
def CallOutcome (p size : Nat) (start : System) (during : List (Act Choice)) (s : System)
    (ret : Ret) (request : Request) : Prop :=
  ∃ events, s.shared.eventsOf p = start.shared.eventsOf p ++ events ∧
    match request with
    | .read _ u => ReadOutcome p u (During start during ringIsEmpty) events ret
    | .write _ u => WriteOutcome p (u.message size) (During start during ringIsFull) events ret
    | _ => False

theorem CallInv.outcome {p : Nat} {start s : System} {request : Request}
    {during : List (Act Choice)} {ret : Ret} (h : CallInv n size p start request during s)
    (hdone : s.locals p = .done ret) : CallOutcome p size start during s ret request := by
  obtain ⟨events, hevents, hcall⟩ := h.progress
  refine ⟨events, hevents, ?_⟩
  rw [hdone] at hcall
  cases request with
  | read | write => exact hcall
  | resize | smode | reset | getstats | poll => exact hcall

section Runs

variable {dev : Dev} {acts : List (Act Choice)} {s : System}

theorem blockingInv_run (hdev : Wellformed dev) (hmode : dev.mode = .BLOCKING)
    (hempty : queue dev = [])
    (hreq : Along driver (Starting fun _ request => request.isTransfer = true) (boot dev) acts)
    (hrun : run driver (boot dev) acts = some s) :
    BlockingInv dev.numBuffers dev.bufferSize s :=
  run_invariant (fun _ _ _ hinv hok h => blockingInv_step hinv hok h)
    (blockingInv_boot hdev hmode hempty) hreq hrun

theorem callInv_run {during : List (Act Choice)} {p : Nat} {request : Request} {start : System}
    (hdev : Wellformed dev) (hmode : dev.mode = .BLOCKING) (hempty : queue dev = [])
    (hreq : Along driver (Starting fun _ request => request.isTransfer = true) (boot dev) acts)
    (hrun : run driver (boot dev) acts = some s)
    (hspan : CallSpan (boot dev) acts p request start during) :
    CallInv dev.numBuffers dev.bufferSize p start request during s := by
  obtain ⟨⟨first, hfirst, hbefore⟩, hduring⟩ := hspan.along hreq
  obtain ⟨t, hallowed⟩ := hspan.start_ok hreq
  have hinv := blockingInv_run hdev hmode hempty hbefore hfirst
  have hcont : Along driver (Continuing p) start during := by
    refine hduring.mono fun _ act hact request hrequest => ⟨?_, fun hq => ?_⟩
    · exact hact.1 request hrequest
    · exact hact.2 hq request hrequest
  refine run_history (fun _ _ _ _ hcall hok h => callInv_step hcall hok h) ?_ hcont
    (hspan.run_during hrun)
  exact callInv_start hinv hspan.start_eq (hallowed request rfl)

-- Any number of readers and writers in blocking mode. The history orders the
-- successful calls by their last critical section.
theorem blocking_linearizable (hdev : Wellformed dev) (hmode : dev.mode = .BLOCKING)
    (hempty : queue dev = [])
    (hreq : Along driver (Starting fun _ request => request.isTransfer = true) (boot dev) acts)
    (hrun : run driver (boot dev) acts = some s) :
    (0 ≤ s.shared.dev.count ∧ s.shared.dev.count ≤ dev.numBuffers) ∧
      (∀ (k count : Nat) (out : List UInt8), s.shared.received[k]? = some (count, out) →
        ∃ message, s.shared.sent[k]? = some message ∧ out = message.take count) ∧
      s.shared.sent.drop s.shared.received.length = queue s.shared.dev ∧
      ∀ p request start during ret, CallSpan (boot dev) acts p request start during →
        s.locals p = .done ret → CallOutcome p dev.bufferSize start during s ret request := by
  have hinv := blockingInv_run hdev hmode hempty hreq hrun
  have hle := hinv.dev.ring.count_le
  rw [hinv.dev.num] at hle
  refine ⟨⟨hinv.dev.ring.count_nonneg, hle⟩, fun k count out hk => ?_, hinv.delivered.drop_eq,
    fun p request start during ret hspan hdone => ?_⟩
  · obtain ⟨message, hm, hout⟩ := hinv.delivered.kth hk
    exact ⟨message, hm, hout⟩
  · exact (callInv_run hdev hmode hempty hreq hrun hspan).outcome hdone

end Runs

-- A read that falls asleep on the empty ring. A write of three bytes into a slot of two comes
-- in and wakes it, and the read goes back to take the message.
def sleepingRead : Request := .read false ⟨4, 4⟩

def handover : List (Act Choice) :=
  ([] ++ [⟨1, .start sleepingRead⟩]) ++ (proceed 1 7 ++
    ⟨0, .start (.write true ⟨[7, 8, 9], 3⟩)⟩ :: proceed 0 7 ++ proceed 1 8)

theorem handover_transfers :
    Along driver (Starting fun _ request => request.isTransfer = true)
      (boot (emptyDev .BLOCKING 1 2)) handover := by
  refine along_of_mem fun _ act hact request hr => ?_
  simp only [handover, proceed, List.nil_append, List.cons_append, List.mem_cons, List.mem_append,
    List.mem_replicate] at hact
  rcases hact with rfl | (⟨-, rfl⟩ | rfl | ⟨-, rfl⟩) | ⟨-, rfl⟩
  · cases hr; rfl
  · cases hr
  · cases hr; rfl
  · cases hr
  · cases hr

theorem blocking_linearizable_handover :
    ∃ start during s, CallSpan (boot (emptyDev .BLOCKING 1 2)) handover 1 sleepingRead start
        during ∧
      (run driver start (proceed 1 7)).map (fun mid => mid.locals 1) =
        some (.readBlocking false ⟨4, 4⟩ (.wait .asleep)) ∧
      run driver (boot (emptyDev .BLOCKING 1 2)) handover = some s ∧
      s.locals 1 = .done (.bytes (.ok 2) [7, 8]) ∧
      CallOutcome 1 2 start during s (.bytes (.ok 2) [7, 8]) sleepingRead ∧
      ∃ message, s.shared.sent[0]? = some message ∧ [7, 8] = message.take 4 := by
  have hdev : Wellformed (emptyDev .BLOCKING 1 2) :=
    emptyDev_wellformed _ _ _ (by decide) (by decide) (by decide) (by decide) (by decide)
  obtain ⟨start, hstart, hasleep⟩ := Option.map_eq_some_iff.mp
    (show (run driver (boot (emptyDev .BLOCKING 1 2)) ([] ++ [⟨1, .start sleepingRead⟩])).map
      (fun start => (run driver start (proceed 1 7)).map fun mid => mid.locals 1) =
        some (some (.readBlocking false ⟨4, 4⟩ (.wait .asleep))) from rfl)
  obtain ⟨s, hrun, hend⟩ := Option.map_eq_some_iff.mp
    (show (run driver (boot (emptyDev .BLOCKING 1 2)) handover).map
      (fun s => (s.locals 1, s.shared.received)) =
        some (.done (.bytes (.ok 2) [7, 8]), [(4, [7, 8])]) from rfl)
  obtain ⟨hdone, hreceived⟩ := Prod.mk.inj hend
  have hspan : CallSpan (boot (emptyDev .BLOCKING 1 2)) handover 1 sleepingRead start _ :=
    callSpan_of_goesOn hstart rfl
  obtain ⟨-, hkth, -, houtcome⟩ := blocking_linearizable hdev rfl rfl handover_transfers hrun
  exact ⟨start, _, s, hspan, hasleep, hrun, hdone,
    houtcome 1 sleepingRead start _ _ hspan hdone, hkth 0 4 [7, 8] (by rw [hreceived]; rfl)⟩

end Kbuf
