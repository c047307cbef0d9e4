import Kbuf.Machine.History

namespace Kbuf

open Interleaving

-- One call of process `p` in a run: it starts in `start`, and `during` are the
-- steps that everybody has taken since.
structure CallSpan (init : System) (acts : List (Act Choice)) (p : Nat) (request : Request)
    (start : System) (during : List (Act Choice)) : Prop where
  split : ∃ before, acts = before ++ [⟨p, .start request⟩] ++ during ∧
    run driver init (before ++ [⟨p, .start request⟩]) = some start
  same : ∀ act ∈ during, act.pid = p → ∀ other, act.choice ≠ .start other

section Span

variable {init start s : System} {acts during : List (Act Choice)} {p : Nat} {request : Request}
  {ok : System → Act Choice → Prop}

theorem CallSpan.run_during (h : CallSpan init acts p request start during)
    (hrun : run driver init acts = some s) : run driver start during = some s := by
  obtain ⟨before, rfl, hstart⟩ := h.split
  obtain ⟨t, ht, hlast⟩ := run_append_eq_some hrun
  obtain rfl := Option.some.inj (hstart.symm.trans ht)
  exact hlast

theorem CallSpan.start_eq (h : CallSpan init acts p request start during) :
    start.locals p = request.enter := by
  obtain ⟨before, -, hstart⟩ := h.split
  obtain ⟨t, -, hlast⟩ := run_append_eq_some hstart
  obtain ⟨u, hu, hnil⟩ := run_cons hlast
  obtain rfl := Option.some.inj hnil
  obtain ⟨⟨w, here⟩, hd, rfl⟩ := step_eq_some hu
  rw [State.put_locals_self]
  exact (driver_start hd).2

-- What holds along the run holds up to the start of the call and during it.
theorem CallSpan.along (h : CallSpan init acts p request start during)
    (hok : Along driver ok init acts) :
    (∃ first, run driver init first = some start ∧ Along driver ok init first) ∧
      Along driver (fun s act => ok s act ∧ (act.pid = p → ∀ other, act.choice ≠ .start other))
        start during := by
  obtain ⟨before, rfl, hstart⟩ := h.split
  obtain ⟨hfirst, hrest⟩ := hok.split hstart
  exact ⟨⟨_, hstart, hfirst⟩, hrest.and (along_of_mem fun _ => h.same)⟩

-- The call itself was allowed to start.
theorem CallSpan.start_ok (h : CallSpan init acts p request start during)
    (hok : Along driver ok init acts) : ∃ s, ok s ⟨p, .start request⟩ := by
  obtain ⟨before, rfl, hstart⟩ := h.split
  obtain ⟨hfirst, -⟩ := hok.split hstart
  obtain ⟨t, ht, -⟩ := run_append_eq_some hstart
  obtain ⟨-, hhere⟩ := hfirst.split ht
  exact ⟨t, hhere.1⟩

-- Any step but a new call of `p`.
def goesOn (p : Nat) (act : Act Choice) : Bool :=
  match act.choice with
  | .start _ => act.pid ≠ p
  | .go | .signal | .spurious => true

theorem callSpan_of_goesOn {before : List (Act Choice)}
    (h : run driver init (before ++ [⟨p, .start request⟩]) = some start)
    (hgoes : during.all (goesOn p) = true) :
    CallSpan init ((before ++ [⟨p, .start request⟩]) ++ during) p request start during where
  split := ⟨before, rfl, h⟩
  same act hact hpid other hstart := by
    have hgo := List.all_eq_true.mp hgoes act hact
    simp [goesOn, hstart, hpid] at hgo

end Span

section Extends

variable {p : Nat} {events : List Event} {w w' : World} {after : List Event → Prop}

-- `after` holds of the events so far and those that process `p` has added since.
def Extends (p : Nat) (w w' : World) (events : List Event) (after : List Event → Prop) : Prop :=
  ∃ more, w'.eventsOf p = w.eventsOf p ++ more ∧ after (events ++ more)

theorem Extends.quiet (hlog : w'.log = w.log) (h : after events) :
    Extends p w w' events after := by
  refine ⟨[], ?_, ?_⟩
  · rw [List.append_nil]
    exact eventsOf_of_log_eq hlog
  · rw [List.append_nil]
    exact h

theorem Extends.event (event : Event) (hp : event.pid = p) (hlog : w'.log = w.log ++ [event])
    (h : after (events ++ [event])) : Extends p w w' events after := by
  refine ⟨[event], ?_, h⟩
  rw [eventsOf_append event hlog, if_pos hp]

end Extends

section Recorded

-- A call that returns success has handed over exactly one message, any other none.
def Ret.Recorded (p : Nat) (request : Request) (events : List Event) : Ret → Prop
  | .bytes (.ok _) out =>
      ∃ nonblock u, request = .read nonblock u ∧ events = [.consumed p u.count out]
  | .size (.ok len) =>
      ∃ nonblock u, request = .write nonblock u ∧ len ≤ u.count ∧ len ≤ u.ubuf.length ∧
        events = [.produced p (u.ubuf.take len)]
  | _ => events = []

-- The call is a write, whose count may have been clamped since.
def Request.Writes (request : Request) (u : UserWrite) : Prop :=
  ∃ nonblock v, request = .write nonblock v ∧ u.ubuf = v.ubuf ∧ u.count ≤ v.count

def SpscReadPc.Recorded (p : Nat) (u : UserRead) (events : List Event) : SpscReadPc → Prop
  | .bytesLoad f | .bytesStore f _ | .msgsLoad f | .msgsStore f _ | .trace f | .wake f =>
      events = [.consumed p u.count f.out]
  | _ => events = []

def SpscWritePc.Recorded (p : Nat) (u : UserWrite) (events : List Event) : SpscWritePc → Prop
  | .setLen _ | .publish _ => events = [] ∧ u.count ≤ u.ubuf.length
  | .bytesLoad _ | .bytesStore .. | .msgsLoad _ | .msgsStore .. | .occ _ | .peak _
  | .peakStore _ | .wake =>
      events = [.produced p (u.ubuf.take u.count)] ∧ u.count ≤ u.ubuf.length
  | _ => events = []

def ReadPc.Recorded (p : Nat) (request : Request) (events : List Event) : ReadPc → Prop
  | .unlock ret | .wake ret => ret.Recorded p request events
  | _ => events = []

def WritePc.Recorded (p : Nat) (request : Request) (events : List Event) : WritePc → Prop
  | .unlock ret | .wake ret => ret.Recorded p request events
  | _ => events = []

-- What the process has handed over by the time it is here in its call.
def Local.Recorded (p : Nat) (request : Request) (events : List Event) : Local → Prop
  | .readEntry nonblock u => request = .read nonblock u ∧ events = []
  | .readBlocking nonblock u pc => request = .read nonblock u ∧ pc.Recorded p request events
  | .readSpsc nonblock u pc => request = .read nonblock u ∧ pc.Recorded p u events
  | .writeEntry _ u => request.Writes u ∧ events = []
  | .writeBlocking _ u pc => request.Writes u ∧ pc.Recorded p request events
  | .writeSpsc _ u pc => request.Writes u ∧ pc.Recorded p u events
  | .done ret => ret.Recorded p request events
  | _ => events = []

variable {p : Nat} {request : Request} {events : List Event} {w w' : World} {here next : Local}

theorem Request.Writes.clamp {u : UserWrite} (h : request.Writes u) (size : Nat) :
    request.Writes (u.clamp size) := by
  obtain ⟨nonblock, v, hv, hubuf, hcount⟩ := h
  refine ⟨nonblock, v, hv, hubuf, ?_⟩
  have := clamp_count u size
  omega

theorem Request.Writes.recorded {u : UserWrite} (h : request.Writes u)
    (hlen : u.count ≤ u.ubuf.length) (he : events = [.produced p (u.ubuf.take u.count)]) :
    Ret.Recorded p request events (.size (.ok u.count)) := by
  obtain ⟨nonblock, v, hv, hubuf, hcount⟩ := h
  rw [hubuf] at hlen he
  exact ⟨nonblock, v, hv, hcount, hlen, he⟩

theorem consumeStep_recorded {nonblock : Bool} {u : UserRead} (hr : request = .read nonblock u)
    (he : events = []) :
    Extends p w (consumeStep w p u).1 events fun events =>
      (consumeStep w p u).2.Recorded p request events := by
  subst he
  unfold consumeStep
  split
  · exact .event _ rfl rfl ⟨nonblock, u, hr, rfl⟩
  · exact .quiet rfl rfl

theorem produceStep_recorded {u : UserWrite} (hr : request.Writes u) (he : events = []) :
    Extends p w (produceStep w p u).1 events fun events =>
      (produceStep w p u).2.Recorded p request events := by
  subst he
  by_cases hu : u.count - u.ubuf.length = 0
  · refine .event (.produced p (u.ubuf.take u.count)) rfl ?_ ?_
    · simp [produceStep, ringProduce, copyFromUser, hu]
    · have hret : (produceStep w p u).2 = .size (.ok u.count) := by
        simp [produceStep, ringProduce, copyFromUser, hu]
      rw [hret]
      exact hr.recorded (by omega) rfl
  · refine .quiet ?_ ?_
    · simp [produceStep, ringProduce, copyFromUser, hu]
    · simp [produceStep, ringProduce, copyFromUser, hu, Ret.Recorded]

-- A call that waits has handed over nothing.
theorem Waiting.recorded {wq : Wq} {out : WaitNext} (h : Waiting out wq here next)
    (hr : here.Recorded p request events) : next.Recorded p request events := by
  cases h with
  | readBlocking | writeBlocking | readSpsc | writeSpsc =>
      obtain ⟨hreq, hr⟩ := hr
      cases out with
      | wait | woken => exact ⟨hreq, hr⟩
      | interrupted => exact hr

theorem ReadMove.recorded {nonblock : Bool} {u : UserRead} {pc : ReadPc} {after : Next ReadPc}
    (hr : (Local.readBlocking nonblock u pc).Recorded p request events)
    (h : ReadMove nonblock u p w pc w' after) :
    Extends p w w' events fun events =>
      (after.lift (.readBlocking nonblock u)).Recorded p request events := by
  obtain ⟨hreq, hr⟩ := hr
  cases h with
  | consume =>
      obtain ⟨more, hmore, hret⟩ := consumeStep_recorded (w := w) hreq hr
      exact ⟨more, hmore, hreq, hret⟩
  | wait hw => exact .quiet hw.log_eq (Waiting.recorded (.readBlocking ..) ⟨hreq, hr⟩)
  | lockSignal | unlockError | wake => exact .quiet rfl hr
  | lock | again | sleep | ready | unlockSleep | unlockOk => exact .quiet rfl ⟨hreq, hr⟩

theorem WriteMove.recorded {nonblock : Bool} {u : UserWrite} {pc : WritePc}
    {after : Next (UserWrite × WritePc)}
    (hr : (Local.writeBlocking nonblock u pc).Recorded p request events)
    (h : WriteMove nonblock u p w pc w' after) :
    Extends p w w' events fun events =>
      (after.lift fun (u, pc) => Local.writeBlocking nonblock u pc).Recorded p request events := by
  obtain ⟨hreq, hr⟩ := hr
  cases h with
  | produce =>
      obtain ⟨more, hmore, hret⟩ := produceStep_recorded (w := w) hreq hr
      exact ⟨more, hmore, hreq, hret⟩
  | clamp => exact .quiet rfl ⟨hreq.clamp _, hr⟩
  | wait hw => exact .quiet hw.log_eq (Waiting.recorded (.writeBlocking ..) ⟨hreq, hr⟩)
  | lockSignal | relockSignal | unlockError | wake => exact .quiet rfl hr
  | lock | again | sleep | ready | unlockSleep | relock | unlockOk =>
      exact .quiet rfl ⟨hreq, hr⟩

theorem SpscReadMove.recorded {nonblock : Bool} {u : UserRead} {pc : SpscReadPc}
    {after : Next SpscReadPc} (hreq : request = .read nonblock u) (hr : pc.Recorded p u events)
    (h : SpscReadMove nonblock u p w pc w' after) :
    Extends p w w' events fun events =>
      (after.lift (.readSpsc nonblock u)).Recorded p request events := by
  cases h with
  | @publish f =>
      obtain rfl : events = [] := hr
      exact .event (.consumed p u.count f.out) rfl rfl ⟨hreq, rfl⟩
  | wait hw => exact .quiet hw.log_eq (Waiting.recorded (.readSpsc ..) ⟨hreq, hr⟩)
  | wake => exact .quiet rfl ⟨nonblock, u, hreq, hr⟩
  | again | copyFault => exact .quiet rfl hr
  | empty | block | ready | sleep | consume | len | copyByte | copyDone | bytesLoad | bytesStore
  | msgsLoad | msgsStore | trace => exact .quiet rfl ⟨hreq, hr⟩

theorem SpscWriteMove.recorded {nonblock : Bool} {u : UserWrite} {pc : SpscWritePc}
    {after : Next (UserWrite × SpscWritePc)} (hreq : request.Writes u)
    (hr : pc.Recorded p u events) (h : SpscWriteMove nonblock u p w pc w' after) :
    Extends p w w' events fun events =>
      (after.lift fun (u, pc) => Local.writeSpsc nonblock u pc).Recorded p request events := by
  cases h with
  | publish =>
      obtain ⟨rfl, hlen⟩ := hr
      exact .event _ rfl rfl ⟨hreq, rfl, hlen⟩
  | clamp => exact .quiet rfl ⟨hreq.clamp _, hr⟩
  | copyDone hi hu => exact .quiet rfl ⟨hreq, hr, hu⟩
  | wake => exact .quiet rfl (hreq.recorded hr.2 hr.1)
  | wait hw => exact .quiet hw.log_eq (Waiting.recorded (.writeSpsc ..) ⟨hreq, hr⟩)
  | again | copyFault => exact .quiet rfl hr
  | full | block | ready | sleep | produce | copyByte | setLen | bytesLoad | bytesStore | msgsLoad
  | msgsStore | occ | peakHigher | peakKept | peakStore => exact .quiet rfl ⟨hreq, hr⟩

theorem Move.recorded {choice : Choice} (hr : here.Recorded p request events)
    (hnew : ∀ other, choice ≠ .start other) (h : Move p w choice here w' next) :
    Extends p w w' events fun events => next.Recorded p request events := by
  cases h with
  | enter => exact absurd rfl (hnew _)
  | readBlocking h => exact h.recorded hr
  | writeBlocking h => exact h.recorded hr
  | readSpsc h => exact h.recorded hr.1 hr.2
  | writeSpsc h => exact h.recorded hr.1 hr.2
  | resize h | smode h | getstats h | poll h => cases h <;> exact .quiet rfl hr
  | reset h =>
      cases h with
      | store => exact .quiet rfl (by dsimp only [Next.lift]; exact hr)
      | lock | unlock => exact .quiet rfl hr
  | readSampleSpsc | readSampleBlocking | writeSampleSpsc | writeSampleBlocking =>
      exact .quiet rfl hr

-- The history tells what the calls returned.
theorem CallSpan.recorded {init start s : System} {acts during : List (Act Choice)}
    {ret : Ret} (hspan : CallSpan init acts p request start during)
    (hrun : run driver init acts = some s) (hdone : s.locals p = .done ret) :
    ∃ events, s.shared.eventsOf p = start.shared.eventsOf p ++ events ∧
      ret.Recorded p request events := by
  have hstep (s t : System) (act : Act Choice)
      (hinv : Extends p start.shared s.shared []
        fun events => (s.locals p).Recorded p request events)
      (hok : act.pid = p → ∀ other, act.choice ≠ .start other) (h : step driver s act = some t) :
      Extends p start.shared t.shared [] fun events => (t.locals p).Recorded p request events := by
    obtain ⟨events, hevents, hr⟩ := hinv
    obtain ⟨w, next, hmove, rfl⟩ := step_move h
    by_cases hp : act.pid = p
    · subst hp
      obtain ⟨more, hmore, hnext⟩ := hmove.recorded hr (hok rfl)
      refine ⟨events ++ more, ?_, ?_⟩
      · rw [← List.append_assoc, ← hevents]
        exact hmore
      · rw [State.put_locals_self]
        exact hnext
    · refine ⟨events, ?_, ?_⟩
      · rw [← hevents]
        exact hmove.eventsOf_other (Ne.symm hp)
      · rw [State.put_locals_of_ne _ _ (Ne.symm hp)]
        exact hr
  have hinit : Extends p start.shared start.shared []
      fun events => (start.locals p).Recorded p request events := by
    refine .quiet rfl ?_
    rw [hspan.start_eq]
    cases request with
    | read => exact ⟨rfl, rfl⟩
    | write nonblock u => exact ⟨⟨nonblock, u, rfl, rfl, Nat.le_refl _⟩, rfl⟩
    | resize | smode | reset | getstats | poll => rfl
  have hend := run_invariant (fun s act t => hstep s t act) hinit
    (along_of_mem fun _ act hact => hspan.same act hact) (hspan.run_during hrun)
  rw [hdone] at hend
  exact hend

end Recorded

end Kbuf
