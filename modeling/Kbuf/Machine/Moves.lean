import Kbuf.Machine.Moves.Ioctl
import Kbuf.Machine.Moves.Spsc

namespace Kbuf

open Interleaving

section Driver

-- Every step of the driver, by the function it is a step of.
inductive Move (me : Nat) (w : World) : Choice → Local → World → Local → Prop
  | enter {here : Local} {request : Request} (h : here = .idle ∨ ∃ ret, here = .done ret) :
      Move me w (.start request) here w request.enter
  | readSampleSpsc {nonblock : Bool} {u : UserRead} (h : w.dev.mode = .SPSC) :
      Move me w .go (.readEntry nonblock u) w (.readSpsc nonblock u .empty)
  | readSampleBlocking {nonblock : Bool} {u : UserRead} (h : w.dev.mode = .BLOCKING) :
      Move me w .go (.readEntry nonblock u) w (.readBlocking nonblock u .lock)
  | writeSampleSpsc {nonblock : Bool} {u : UserWrite} (h : w.dev.mode = .SPSC) :
      Move me w .go (.writeEntry nonblock u) w (.writeSpsc nonblock u .clamp)
  | writeSampleBlocking {nonblock : Bool} {u : UserWrite} (h : w.dev.mode = .BLOCKING) :
      Move me w .go (.writeEntry nonblock u) w (.writeBlocking nonblock u .lock)
  | readBlocking {choice : Choice} {nonblock : Bool} {u : UserRead} {pc : ReadPc} {w' : World}
      {next : Next ReadPc} (h : ReadMove nonblock u me w pc w' next) :
      Move me w choice (.readBlocking nonblock u pc) w' (next.lift (.readBlocking nonblock u))
  | writeBlocking {choice : Choice} {nonblock : Bool} {u : UserWrite} {pc : WritePc} {w' : World}
      {next : Next (UserWrite × WritePc)} (h : WriteMove nonblock u me w pc w' next) :
      Move me w choice (.writeBlocking nonblock u pc) w'
        (next.lift fun (u, pc) => .writeBlocking nonblock u pc)
  | readSpsc {choice : Choice} {nonblock : Bool} {u : UserRead} {pc : SpscReadPc} {w' : World}
      {next : Next SpscReadPc} (h : SpscReadMove nonblock u me w pc w' next) :
      Move me w choice (.readSpsc nonblock u pc) w' (next.lift (.readSpsc nonblock u))
  | writeSpsc {choice : Choice} {nonblock : Bool} {u : UserWrite} {pc : SpscWritePc}
      {w' : World} {next : Next (UserWrite × SpscWritePc)}
      (h : SpscWriteMove nonblock u me w pc w' next) :
      Move me w choice (.writeSpsc nonblock u pc) w'
        (next.lift fun (u, pc) => .writeSpsc nonblock u pc)
  | resize {choice : Choice} {rq : ResizeArg} {pc : ResizePc} {w' : World} {next : Next ResizePc}
      (h : ResizeMove rq me w pc w' next) :
      Move me w choice (.resize rq pc) w' (next.lift (.resize rq))
  | smode {choice : Choice} {arg : SmodeArg} {pc : SmodePc} {w' : World} {next : Next SmodePc}
      (h : SmodeMove arg me w pc w' next) :
      Move me w choice (.smode arg pc) w' (next.lift (.smode arg))
  | reset {choice : Choice} {pc : ResetPc} {w' : World} {next : Next ResetPc}
      (h : ResetMove me w pc w' next) : Move me w choice (.reset pc) w' (next.lift .reset)
  | getstats {choice : Choice} {fault : Bool} {pc : GetstatsPc} {w' : World}
      {next : Next GetstatsPc} (h : GetstatsMove fault me w pc w' next) :
      Move me w choice (.getstats fault pc) w' (next.lift (.getstats fault))
  | poll {choice : Choice} {pc : PollPc} {w' : World} {next : Next PollPc}
      (h : PollMove me w pc w' next) : Move me w choice (.poll pc) w' (next.lift .poll)

-- Where the end of wait_event_interruptible, or its next step, leads a call: each of the
-- four transfers goes on waiting, tries again or gives up.
inductive Waiting (out : WaitNext) : Wq → Local → Local → Prop
  | readBlocking (nonblock : Bool) (u : UserRead) (pc : WaitPc) :
      Waiting out .read (.readBlocking nonblock u (.wait pc))
        ((ReadPc.afterWait out).lift (.readBlocking nonblock u))
  | writeBlocking (nonblock : Bool) (u : UserWrite) (pc : WaitPc) :
      Waiting out .write (.writeBlocking nonblock u (.wait pc))
        ((WritePc.afterWait u out).lift fun (u, pc) => .writeBlocking nonblock u pc)
  | readSpsc (nonblock : Bool) (u : UserRead) (pc : WaitPc) :
      Waiting out .read (.readSpsc nonblock u (.wait pc))
        ((SpscReadPc.afterWait out).lift (.readSpsc nonblock u))
  | writeSpsc (nonblock : Bool) (u : UserWrite) (pc : WaitPc) :
      Waiting out .write (.writeSpsc nonblock u (.wait pc))
        ((SpscWritePc.afterWait u out).lift fun (u, pc) => .writeSpsc nonblock u pc)

theorem enterStep_eq_some {w w' : World} {choice : Choice} {next : Local}
    (h : enterStep w choice = some (w', next)) :
    ∃ request, choice = .start request ∧ w' = w ∧ next = request.enter := by
  cases choice <;> simp only [enterStep, reduceCtorEq] at h
  obtain ⟨rfl, rfl⟩ := Prod.mk.inj (Option.some.inj h)
  exact ⟨_, rfl, rfl, rfl⟩

theorem sampleStep_eq_some {w w' : World} {spsc blocking next : Local} {choice : Choice}
    (h : sampleStep w spsc blocking choice = some (w', next)) :
    choice = .go ∧ w' = w ∧
      (w.dev.mode = .SPSC ∧ next = spsc ∨ w.dev.mode = .BLOCKING ∧ next = blocking) := by
  cases choice <;> simp only [sampleStep, reduceCtorEq] at h
  split at h
  · obtain ⟨rfl, rfl⟩ := Prod.mk.inj (Option.some.inj h)
    exact ⟨rfl, rfl, Or.inl ⟨‹_›, rfl⟩⟩
  · obtain ⟨rfl, rfl⟩ := Prod.mk.inj (Option.some.inj h)
    exact ⟨rfl, rfl, Or.inr ⟨‹_›, rfl⟩⟩

theorem lifted_eq_some {π : Type} {step : Option (World × Next π)} {here : π → Local}
    {w' : World} {next : Local} (h : step.map (Prod.map id (Next.lift here)) = some (w', next)) :
    ∃ after, step = some (w', after) ∧ next = after.lift here := by
  obtain ⟨⟨v, after⟩, hv, hnext⟩ := Option.map_eq_some_iff.mp h
  obtain ⟨rfl, rfl⟩ := Prod.mk.inj hnext
  exact ⟨after, hv, rfl⟩

theorem driver_move {me : Nat} {choice : Choice} {here next : Local} {w w' : World}
    (h : driver me choice here w = some (w', next)) : Move me w choice here w' next := by
  cases here with
  | idle =>
      obtain ⟨request, rfl, rfl, rfl⟩ := enterStep_eq_some h
      exact .enter (Or.inl rfl)
  | done ret =>
      obtain ⟨request, rfl, rfl, rfl⟩ := enterStep_eq_some h
      exact .enter (Or.inr ⟨ret, rfl⟩)
  | readEntry nonblock u =>
      obtain ⟨rfl, rfl, ⟨hm, rfl⟩ | ⟨hm, rfl⟩⟩ := sampleStep_eq_some h
      · exact .readSampleSpsc hm
      · exact .readSampleBlocking hm
  | writeEntry nonblock u =>
      obtain ⟨rfl, rfl, ⟨hm, rfl⟩ | ⟨hm, rfl⟩⟩ := sampleStep_eq_some h
      · exact .writeSampleSpsc hm
      · exact .writeSampleBlocking hm
  | readBlocking nonblock u pc =>
      obtain ⟨after, ha, rfl⟩ := lifted_eq_some h
      exact .readBlocking (readBlockingStep_move ha)
  | writeBlocking nonblock u pc =>
      obtain ⟨after, ha, rfl⟩ := lifted_eq_some h
      exact .writeBlocking (writeBlockingStep_move ha)
  | readSpsc nonblock u pc =>
      obtain ⟨after, ha, rfl⟩ := lifted_eq_some h
      exact .readSpsc (readSpscStep_move ha)
  | writeSpsc nonblock u pc =>
      obtain ⟨after, ha, rfl⟩ := lifted_eq_some h
      exact .writeSpsc (writeSpscStep_move ha)
  | resize rq pc =>
      obtain ⟨after, ha, rfl⟩ := lifted_eq_some h
      exact .resize (resizeStep_move ha)
  | smode arg pc =>
      obtain ⟨after, ha, rfl⟩ := lifted_eq_some h
      exact .smode (smodeStep_move ha)
  | reset pc =>
      obtain ⟨after, ha, rfl⟩ := lifted_eq_some h
      exact .reset (resetStep_move ha)
  | getstats fault pc =>
      obtain ⟨after, ha, rfl⟩ := lifted_eq_some h
      exact .getstats (getstatsStep_move ha)
  | poll pc =>
      obtain ⟨after, ha, rfl⟩ := lifted_eq_some h
      exact .poll (pollStep_move ha)

-- A process enters only between two calls.
theorem driver_start {me : Nat} {request : Request} {here next : Local} {w w' : World}
    (h : driver me (.start request) here w = some (w', next)) :
    w' = w ∧ next = request.enter := by
  cases here with
  | idle | done =>
      obtain ⟨rfl, rfl⟩ := Prod.mk.inj (Option.some.inj h)
      exact ⟨rfl, rfl⟩
  | readEntry | writeEntry => cases h
  | readBlocking _ _ pc | writeBlocking _ _ pc | readSpsc _ _ pc | writeSpsc _ _ pc =>
      cases pc with
      | wait pc => cases pc <;> cases h
      | _ => cases h
  | resize _ pc | smode _ pc | reset pc | getstats _ pc | poll pc => cases pc <;> cases h

-- A step of the system is a move of one process.
theorem step_move {s t : System} {act : Act Choice} (h : step driver s act = some t) :
    ∃ w here, Move act.pid s.shared act.choice (s.locals act.pid) w here ∧
      t = s.put act.pid (w, here) := by
  obtain ⟨⟨w, here⟩, hp, rfl⟩ := step_eq_some h
  exact ⟨w, here, driver_move hp, rfl⟩

end Driver

end Kbuf
