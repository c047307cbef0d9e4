import Kbuf.Device.Lemmas
import Kbuf.Machine.Lock
import Kbuf.Lib.Delivery

namespace Kbuf

open Interleaving

-- A restriction on which calls the processes start.
def Starting (ok : Nat → Request → Prop) (_ : System) (act : Act Choice) : Prop :=
  ∀ request, act.choice = .start request → ok act.pid request

-- The next steps of one process, taken in a row.
def proceed (p steps : Nat) : List (Act Choice) := List.replicate steps ⟨p, .go⟩

-- The deliveries so far are the accepted messages in order, each cut to the
-- size its reader asked for, and what is left is in the ring.
def World.Delivered (w : World) : Prop :=
  Delivery.Delivered (fun message got => got.2 = message.take got.1) w.sent w.received
    (queue w.dev)

def World.eventsOf (w : World) (p : Nat) : List Event := w.log.filter fun event => event.pid = p

section Delivered

variable {w w' : World} {dev : Dev} {me count : Nat} {message out : List UInt8}

theorem World.Delivered.of_eq (h : w.Delivered) (hlog : w'.log = w.log)
    (hq : queue w'.dev = queue w.dev) : w'.Delivered := by
  unfold World.Delivered World.sent World.received at h ⊢
  rw [hlog, hq]
  exact h

theorem World.Delivered.produced (h : w.Delivered) (hq : queue dev = queue w.dev ++ [message]) :
    World.Delivered { w with dev := dev, log := w.log ++ [.produced me message] } := by
  have hpush := Delivery.Delivered.push h message
  rw [← hq] at hpush
  simpa [World.Delivered, World.sent, World.received] using hpush

theorem World.Delivered.consumed (h : w.Delivered) (hq : queue w.dev = message :: queue dev)
    (hout : out = message.take count) :
    World.Delivered { w with dev := dev, log := w.log ++ [.consumed me count out] } := by
  unfold World.Delivered at h
  rw [hq] at h
  have hpop := h.pop (show (count, out).2 = message.take (count, out).1 from hout)
  simpa [World.Delivered, World.sent, World.received] using hpop

theorem delivered_boot (h : queue dev = []) : (boot dev).shared.Delivered := by
  change Delivery.Delivered _ [] [] (queue dev)
  rw [h]
  exact Delivery.delivered_nil

end Delivered

section EventsOf

variable {w w' : World} {p : Nat}

theorem eventsOf_of_log_eq (h : w'.log = w.log) : w'.eventsOf p = w.eventsOf p := by
  rw [World.eventsOf, h, World.eventsOf]

theorem eventsOf_append (event : Event) (h : w'.log = w.log ++ [event]) :
    w'.eventsOf p = w.eventsOf p ++ if event.pid = p then [event] else [] := by
  rw [World.eventsOf, h, List.filter_append, World.eventsOf]
  by_cases hp : event.pid = p
  · simp [hp]
  · simp [hp]

theorem consumeStep_log (w : World) (me : Nat) (u : UserRead) :
    (consumeStep w me u).1.log = w.log ∨
      ∃ event, event.pid = me ∧ (consumeStep w me u).1.log = w.log ++ [event] := by
  unfold consumeStep
  split
  · exact Or.inr ⟨_, rfl, rfl⟩
  · exact Or.inl rfl

theorem produceStep_log (w : World) (me : Nat) (u : UserWrite) :
    (produceStep w me u).1.log = w.log ∨
      ∃ event, event.pid = me ∧ (produceStep w me u).1.log = w.log ++ [event] := by
  unfold produceStep
  split
  · exact Or.inr ⟨_, rfl, rfl⟩
  · exact Or.inl rfl

-- A process records its own hand-overs only, one at a time.
theorem Move.log_effect {me : Nat} {choice : Choice} {here next : Local}
    (h : Move me w choice here w' next) :
    w'.log = w.log ∨ ∃ event, event.pid = me ∧ w'.log = w.log ++ [event] := by
  cases h with
  | enter | readSampleSpsc | readSampleBlocking | writeSampleSpsc | writeSampleBlocking =>
      exact Or.inl rfl
  | readBlocking h =>
      cases h with
      | wait hw => exact Or.inl hw.log_eq
      | consume => exact consumeStep_log ..
      | lock | lockSignal | again | sleep | ready | unlockSleep | unlockOk | unlockError | wake =>
          exact Or.inl rfl
  | writeBlocking h =>
      cases h with
      | wait hw => exact Or.inl hw.log_eq
      | produce => exact produceStep_log ..
      | lock | lockSignal | clamp | again | sleep | ready | unlockSleep | relock | relockSignal
      | unlockOk | unlockError | wake => exact Or.inl rfl
  | readSpsc h =>
      cases h with
      | wait hw => exact Or.inl hw.log_eq
      | publish => exact Or.inr ⟨_, rfl, rfl⟩
      | empty | again | block | ready | sleep | consume | len | copyByte | copyFault | copyDone
      | bytesLoad | bytesStore | msgsLoad | msgsStore | trace | wake => exact Or.inl rfl
  | writeSpsc h =>
      cases h with
      | wait hw => exact Or.inl hw.log_eq
      | publish => exact Or.inr ⟨_, rfl, rfl⟩
      | clamp | full | again | block | ready | sleep | produce | copyByte | copyFault | copyDone
      | setLen | bytesLoad | bytesStore | msgsLoad | msgsStore | occ | peakHigher | peakKept
      | peakStore | wake => exact Or.inl rfl
  | resize h => cases h <;> exact Or.inl rfl
  | smode h => cases h <;> exact Or.inl rfl
  | reset h => cases h <;> exact Or.inl rfl
  | getstats h => cases h <;> exact Or.inl rfl
  | poll h => cases h <;> exact Or.inl rfl

-- The history only grows.
theorem run_log {s t : System} {acts : List (Act Choice)} (hrun : run driver s acts = some t) :
    s.shared.log <+: t.shared.log := by
  have hstep (t : System) (act : Act Choice) (u : System) (ht : s.shared.log <+: t.shared.log)
      (_ : True) (h : step driver t act = some u) : s.shared.log <+: u.shared.log := by
    obtain ⟨w, next, hmove, rfl⟩ := step_move h
    rcases hmove.log_effect with hlog | ⟨event, -, hlog⟩
    · rw [State.put_shared, hlog]
      exact ht
    · rw [State.put_shared, hlog]
      exact ht.trans (List.prefix_append _ _)
  exact run_invariant hstep (List.prefix_refl _) (along_of_mem fun _ _ _ => trivial) hrun

theorem Move.eventsOf_other {me : Nat} {choice : Choice} {here next : Local}
    (h : Move me w choice here w' next) (hp : p ≠ me) : w'.eventsOf p = w.eventsOf p := by
  rcases h.log_effect with hlog | ⟨event, hme, hlog⟩
  · exact eventsOf_of_log_eq hlog
  · rw [eventsOf_append event hlog, if_neg fun he => hp (he.symm.trans hme), List.append_nil]

end EventsOf

end Kbuf
