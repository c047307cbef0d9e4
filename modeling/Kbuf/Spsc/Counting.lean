import Kbuf.Spsc.Gauges

namespace Kbuf

open Interleaving CounterPair

section Waiting

variable {side : Side} {s : System} {w w' : World} {p pid : Nat} {here next : Local}

theorem produceSide_items (h : w'.log = w.log) :
    produceSide.items w' = produceSide.items w := by
  simp only [produceSide, World.sent, h]

theorem consumeSide_items (h : w'.log = w.log) :
    consumeSide.items w' = consumeSide.items w := by
  simp only [consumeSide, World.received, h]

-- Whoever waits is not counting anything.
theorem Side.wait (hside : side = produceSide ∨ side = consumeSide)
    (hknows : side.knows (side.items s.shared) (s.locals p)) (hhere : s.locals pid = here)
    {wq : Wq} {cond : Dev → Bool} {pc : WaitPc} {out : WaitNext}
    (hw : WaitMove wq cond pid s.shared pc w out) (h : Waiting out wq here next) :
    side.Moved p s pid (s.put pid (w, next)) := by
  have hitems : side.items w = side.items s.shared := by
    rcases hside with rfl | rfl
    · exact produceSide_items hw.log_eq
    · exact consumeSide_items hw.log_eq
  refine Side.stay hknows hhere hitems (by rw [hw.dev_eq]) (by rw [hw.dev_eq]) ?_ ?_ ?_ ?_
  · rcases hside with rfl | rfl <;> cases h <;> cases out <;> rfl
  · cases h <;> cases out <;> rfl
  · rcases hside with rfl | rfl <;> cases h <;> cases out <;> trivial
  · rcases hside with rfl | rfl <;> cases h <;> cases out <;> rfl

end Waiting

section Produce

variable {s : System} {w : World} {pid : Nat} {choice : Choice}

theorem produced_items (w : World) (me : Nat) (dev : Dev) (message : List UInt8) :
    produceSide.items { w with dev := dev, log := w.log ++ [.produced me message] } =
      produceSide.items w ++ [message.length] := by
  simp [produceSide, World.sent]

theorem SpscWriteMove.produce_moved {nonblock : Bool} {u : UserWrite} {pc : SpscWritePc}
    {after : Next (UserWrite × SpscWritePc)} (hhere : s.locals pid = .writeSpsc nonblock u pc)
    (hknows : (s.locals pid).ProducedLast (produceSide.items s.shared))
    (hapart : produceSide.Apart s ⟨pid, choice⟩)
    (h : SpscWriteMove nonblock u pid s.shared pc w after) :
    produceSide.Moved pid s pid
      (s.put pid (w, after.lift fun (u, pc) => .writeSpsc nonblock u pc)) := by
  have hphase : (produceSide.gauge pid s).phase = pc.phase := congrArg Local.producePhase hhere
  have hclear : (s.locals pid).clearing produceSide.first produceSide.last = false := by
    rw [hhere]
    rfl
  have hlast := hknows
  rw [hhere] at hlast
  cases h with
  | @publish f =>
      have hlen : (u.ubuf.take u.count).length = u.count := by
        rw [List.length_take]
        exact Nat.min_eq_left hlast
      have hitems := produced_items s.shared pid { s.shared.dev with prodIdx := f.prod + 1 }
        (u.ubuf.take u.count)
      rw [hlen] at hitems
      exact produceSide.enters (.record u.count hphase) hitems rfl rfl rfl hclear.symm rfl
        List.getLast?_concat (iff_of_false nofun fun h => nomatch h.2)
  | bytesLoad =>
      exact produceSide.enters (.loadTotal hphase) rfl rfl rfl rfl hclear.symm rfl hlast
        (iff_of_false nofun fun h => nomatch h.2)
  | bytesStore =>
      exact produceSide.enters (.storeTotal _ u.count hphase hlast) rfl rfl rfl rfl hclear.symm
        rfl trivial (iff_of_false nofun fun h => nomatch h.2)
  | msgsLoad =>
      exact produceSide.enters (.loadCount hphase) rfl rfl rfl rfl hclear.symm rfl trivial
        (iff_of_false nofun fun h => nomatch h.2)
  | msgsStore =>
      refine produceSide.enters (.storeCount _ hphase fun ⟨q, hq⟩ => ?_) rfl rfl rfl rfl
        hclear.symm rfl trivial (iff_of_false nofun fun h => nomatch h.2)
      rw [hapart.transfer _ hphase q] at hq
      cases hq
  | wake =>
      exact produceSide.enters (.finish hphase) rfl rfl rfl rfl hclear.symm rfl trivial
        (iff_of_true rfl ⟨hphase, rfl⟩)
  | wait hw => exact Side.wait (.inl rfl) hknows hhere hw (.writeSpsc ..)
  | copyDone hi hu => exact produceSide.stay hknows hhere rfl rfl rfl rfl rfl hu rfl
  | setLen => exact produceSide.stay hknows hhere rfl rfl rfl rfl rfl hlast rfl
  | clamp | full | again | block | ready | sleep | produce | copyByte | copyFault | occ | peakHigher
  | peakKept | peakStore =>
      exact produceSide.stay hknows hhere rfl rfl rfl rfl rfl trivial rfl

-- A read is nothing to the producer's counters.
theorem SpscReadMove.produce_moved {nonblock : Bool} {u : UserRead} {pc : SpscReadPc}
    {after : Next SpscReadPc} {p : Nat} (hhere : s.locals pid = .readSpsc nonblock u pc)
    (hknows : (s.locals p).ProducedLast (produceSide.items s.shared))
    (h : SpscReadMove nonblock u pid s.shared pc w after) :
    produceSide.Moved p s pid (s.put pid (w, after.lift (.readSpsc nonblock u))) := by
  cases h with
  | publish =>
      refine produceSide.stay hknows hhere ?_ rfl rfl rfl rfl trivial rfl
      simp [produceSide, World.sent]
  | wait hw => exact Side.wait (.inl rfl) hknows hhere hw (.readSpsc ..)
  | empty | again | block | ready | sleep | consume | len | copyByte | copyFault | copyDone
  | bytesLoad | bytesStore | msgsLoad | msgsStore | trace | wake =>
      exact produceSide.stay hknows hhere rfl rfl rfl rfl rfl trivial rfl

end Produce

section Consume

variable {s : System} {w : World} {pid : Nat} {choice : Choice}

theorem consumed_items (w : World) (me : Nat) (dev : Dev) (count : Nat) (out : List UInt8) :
    consumeSide.items { w with dev := dev, log := w.log ++ [.consumed me count out] } =
      consumeSide.items w ++ [out.length] := by
  simp [consumeSide, World.received]

theorem SpscReadMove.consume_moved {nonblock : Bool} {u : UserRead} {pc : SpscReadPc}
    {after : Next SpscReadPc} (hhere : s.locals pid = .readSpsc nonblock u pc)
    (hok : ConsumerOk s.shared.dev.ring s.shared.slotsPtr u pc)
    (hknows : (s.locals pid).ConsumedLast (consumeSide.items s.shared))
    (hapart : consumeSide.Apart s ⟨pid, choice⟩)
    (h : SpscReadMove nonblock u pid s.shared pc w after) :
    consumeSide.Moved pid s pid (s.put pid (w, after.lift (.readSpsc nonblock u))) := by
  have hphase : (consumeSide.gauge pid s).phase = pc.phase := congrArg Local.consumePhase hhere
  have hclear : (s.locals pid).clearing consumeSide.first consumeSide.last = false := by
    rw [hhere]
    rfl
  have hlast := hknows
  rw [hhere] at hlast
  cases h with
  | @publish f =>
      obtain ⟨-, hlen, -⟩ := hok
      have hitems := consumed_items s.shared pid { s.shared.dev with consIdx := f.cons + 1 }
        u.count f.out
      rw [← hlen] at hitems
      exact consumeSide.enters (.record f.len hphase) hitems rfl rfl rfl hclear.symm rfl
        List.getLast?_concat (iff_of_false nofun fun h => nomatch h.2)
  | bytesLoad =>
      exact consumeSide.enters (.loadTotal hphase) rfl rfl rfl rfl hclear.symm rfl hlast
        (iff_of_false nofun fun h => nomatch h.2)
  | @bytesStore f =>
      exact consumeSide.enters (.storeTotal _ f.len hphase hlast) rfl rfl rfl rfl hclear.symm
        rfl trivial (iff_of_false nofun fun h => nomatch h.2)
  | msgsLoad =>
      exact consumeSide.enters (.loadCount hphase) rfl rfl rfl rfl hclear.symm rfl trivial
        (iff_of_false nofun fun h => nomatch h.2)
  | msgsStore =>
      refine consumeSide.enters (.storeCount _ hphase fun ⟨q, hq⟩ => ?_) rfl rfl rfl rfl
        hclear.symm rfl trivial (iff_of_false nofun fun h => nomatch h.2)
      rw [hapart.transfer _ hphase q] at hq
      cases hq
  | wake =>
      exact consumeSide.enters (.finish hphase) rfl rfl rfl rfl hclear.symm rfl trivial
        (iff_of_true rfl ⟨hphase, rfl⟩)
  | wait hw => exact Side.wait (.inr rfl) hknows hhere hw (.readSpsc ..)
  | empty | again | block | ready | sleep | consume | len | copyByte | copyFault | copyDone
  | trace => exact consumeSide.stay hknows hhere rfl rfl rfl rfl rfl trivial rfl

-- A write is nothing to the consumer's counters.
theorem SpscWriteMove.consume_moved {nonblock : Bool} {u : UserWrite} {pc : SpscWritePc}
    {after : Next (UserWrite × SpscWritePc)} {p : Nat}
    (hhere : s.locals pid = .writeSpsc nonblock u pc)
    (hknows : (s.locals p).ConsumedLast (consumeSide.items s.shared))
    (h : SpscWriteMove nonblock u pid s.shared pc w after) :
    consumeSide.Moved p s pid
      (s.put pid (w, after.lift fun (u, pc) => .writeSpsc nonblock u pc)) := by
  cases h with
  | publish =>
      refine consumeSide.stay hknows hhere ?_ rfl rfl rfl rfl trivial rfl
      simp [consumeSide, World.received]
  | wait hw => exact Side.wait (.inr rfl) hknows hhere hw (.writeSpsc ..)
  | clamp | full | again | block | ready | sleep | produce | copyByte | copyFault | copyDone
  | setLen | bytesLoad | bytesStore | msgsLoad | msgsStore | occ | peakHigher | peakKept
  | peakStore | wake => exact consumeSide.stay hknows hhere rfl rfl rfl rfl rfl trivial rfl

end Consume

section Moves

variable {side : Side} {producer consumer : Nat} {s t : System} {w : World} {p pid : Nat}
  {here next : Local}

def Local.transferring : Local → Bool
  | .readSpsc .. | .writeSpsc .. => true
  | _ => false

-- The steps that are no part of a transfer. Those of a RESET are told apart by the
-- counter they clear.
theorem Move.aside_moved {choice : Choice} (hside : side = produceSide ∨ side = consumeSide)
    (hlock : LockInv s) (hok : here.SpscOk (Roles.pair producer consumer) s.shared pid)
    (hout : here.transferring = false)
    (hknows : side.knows (side.items s.shared) (s.locals p)) (hhere : s.locals pid = here)
    (hapart : side.Apart s ⟨pid, choice⟩) (h : Move pid s.shared choice here w next) :
    side.Moved p s pid (s.put pid (w, next)) := by
  have hl : side.Lawful := by
    rcases hside with rfl | rfl
    · exact produceSide_lawful
    · exact consumeSide_lawful
  rcases hside with rfl | rfl <;> cases h with
  | @enter _ request hidle =>
      rcases hidle with rfl | ⟨ret, rfl⟩
      · cases request <;> exact Side.stay hknows hhere rfl rfl rfl rfl rfl trivial rfl
      · cases request <;> exact Side.stay hknows hhere rfl rfl rfl rfl rfl trivial rfl
  | readSampleSpsc | writeSampleSpsc | readSampleBlocking | writeSampleBlocking =>
      exact Side.stay hknows hhere rfl rfl rfl rfl rfl trivial rfl
  | readBlocking | writeBlocking | smode => exact hok.elim
  | resize => exact hok.1.elim
  | readSpsc | writeSpsc => cases hout
  | reset h =>
      cases h with
      | lock | unlock => exact Side.stay hknows hhere rfl rfl rfl rfl rfl trivial rfl
      | store => exact Side.reset_store hl hlock hknows hhere hapart
  | getstats h => cases h <;> exact Side.stay hknows hhere rfl rfl rfl rfl rfl trivial rfl
  | poll h => cases h <;> exact Side.stay hknows hhere rfl rfl rfl rfl rfl trivial rfl

end Moves

section Invariant

structure Side.Tracked (side : Side) (p : Nat) (s : System) : Prop where
  knows : side.knows (side.items s.shared) (s.locals p)
  pending : (side.gauge p s).Pending

-- One producer and one consumer, each with what its side knows.
structure CountingInv (producer consumer : Nat) (s : System) : Prop where
  spsc : SpscInv (Roles.pair producer consumer) s
  lock : LockInv s
  produce : produceSide.Tracked producer s
  consume : consumeSide.Tracked consumer s

variable {producer consumer : Nat} {s t : System} {act : Act Choice} {dev : Dev}

theorem CountingInv.produce_moved (hinv : CountingInv producer consumer s)
    (hapart : produceSide.Apart s act) (h : step driver s act = some t) :
    produceSide.Moved producer s act.pid t := by
  obtain ⟨pid, choice⟩ := act
  obtain ⟨w, next, hmove, rfl⟩ := step_move h
  clear h
  have hok := hinv.spsc.local_ok pid
  dsimp only at hmove
  generalize hhere : s.locals pid = here at hmove hok
  by_cases hout : here.transferring = false
  · exact hmove.aside_moved (.inl rfl) hinv.lock hok hout hinv.produce.knows hhere hapart
  · cases hmove with
    | readSpsc h => exact h.produce_moved hhere hinv.produce.knows
    | writeSpsc h =>
        have hme : pid = producer := hok.1
        have hknows := hinv.produce.knows
        rw [← hme] at hknows ⊢
        exact h.produce_moved hhere hknows hapart
    | enter hidle => rcases hidle with rfl | ⟨ret, rfl⟩ <;> exact absurd rfl hout
    | readSampleSpsc | readSampleBlocking | writeSampleSpsc | writeSampleBlocking
    | readBlocking | writeBlocking | resize | smode | reset | getstats | poll =>
        exact absurd rfl hout

theorem CountingInv.consume_moved (hinv : CountingInv producer consumer s)
    (hapart : consumeSide.Apart s act) (h : step driver s act = some t) :
    consumeSide.Moved consumer s act.pid t := by
  obtain ⟨pid, choice⟩ := act
  obtain ⟨w, next, hmove, rfl⟩ := step_move h
  clear h
  have hok := hinv.spsc.local_ok pid
  dsimp only at hmove
  generalize hhere : s.locals pid = here at hmove hok
  by_cases hout : here.transferring = false
  · exact hmove.aside_moved (.inr rfl) hinv.lock hok hout hinv.consume.knows hhere hapart
  · cases hmove with
    | writeSpsc h => exact h.consume_moved hhere hinv.consume.knows
    | readSpsc h =>
        have hme : pid = consumer := hok.1
        have hknows := hinv.consume.knows
        rw [← hme] at hknows ⊢
        exact h.consume_moved hhere hok.2 hknows hapart
    | enter hidle => rcases hidle with rfl | ⟨ret, rfl⟩ <;> exact absurd rfl hout
    | readSampleSpsc | readSampleBlocking | writeSampleSpsc | writeSampleBlocking
    | readBlocking | writeBlocking | resize | smode | reset | getstats | poll =>
        exact absurd rfl hout

theorem Side.Moved.tracked {side : Side} {p pid : Nat} (htracked : side.Tracked p s)
    (h : side.Moved p s pid t) : side.Tracked p t :=
  ⟨h.knows, Gauge.pending_step htracked.pending h.step⟩

-- Neither counter of either side is stored to by a RESET and a transfer at once.
def ResetsApart (s : System) (act : Act Choice) : Prop :=
  produceSide.Apart s act ∧ consumeSide.Apart s act

theorem countingInv_step (hinv : CountingInv producer consumer s)
    (hstart : Starting (Roles.pair producer consumer).allows s act) (hapart : ResetsApart s act)
    (h : step driver s act = some t) : CountingInv producer consumer t where
  spsc := hinv.spsc.pair_step hstart h
  lock := lockInv_step hinv.lock h
  produce := (hinv.produce_moved hapart.1 h).tracked hinv.produce
  consume := (hinv.consume_moved hapart.2 h).tracked hinv.consume

theorem countingInv_boot (hdev : Wellformed dev) (hmode : dev.mode = .SPSC)
    (hempty : queue dev = []) : CountingInv producer consumer (boot dev) where
  spsc := spscInv_boot hdev hmode hempty
  lock := lockInv_boot dev
  produce := ⟨trivial, fun h => absurd rfl h⟩
  consume := ⟨trivial, fun h => absurd rfl h⟩

end Invariant

end Kbuf
