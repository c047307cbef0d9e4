import Kbuf.Lib.ReleaseAcquire
import Kbuf.Mmap.Ring

namespace Kbuf

open Interleaving ReleaseAcquire

-- The two atomic fields of struct kbuf_mmap_ctrl.
inductive MapIndex where
  | head
  | tail
  deriving DecidableEq, Repr

-- The mapping as two threads on different processors share it: loads of `head` and
-- `tail` may be stale, and the bytes of the ring are plain memory.
structure WeakRing where
  cap : Nat
  mem : Memory MapIndex Nat (BitVec 64) UInt8
  accepted : List UInt8
  returned : List UInt8

-- Byte `i` from `index & (cap - 1)` on, in the double mapping.
def WeakRing.position (ring : WeakRing) (index : BitVec 64) (i : Nat) : Nat :=
  ((index &&& (BitVec.ofNat 64 ring.cap - 1)).toNat + i) % ring.cap

-- The value stored last, which no thread need have seen yet.
def WeakRing.newest (ring : WeakRing) (l : MapIndex) : BitVec 64 :=
  ((ring.mem.history l).getLast?.map Message.value).getD 0

-- `load i` answers a load with store number `i` to its location.
inductive WeakChoice where
  | start (request : MapRequest)
  | load (i : Nat)
  | go

-- kbuf_map_write. The own index is loaded relaxed, the other one acquires.
def weakWriteStep (me : Nat) (buf : List UInt8) (ring : WeakRing) :
    MapWritePc → WeakChoice → Option (WeakRing × MapLocal)
  | .loadHead, .load i =>
      (ring.mem.load .relaxed me .head i).map fun (head, mem) =>
        ({ ring with mem := mem }, .write buf (.loadTail head))
  | .loadTail head, .load i =>
      (ring.mem.load .acquire me .tail i).map fun (tail, mem) =>
        let space := (BitVec.ofNat 64 ring.cap - (head - tail)).toNat
        let n := if buf.length > space then space else buf.length
        ({ ring with mem := mem }, if n = 0 then .written 0 else .write buf (.copy head n 0))
  | .copy head n i, .go =>
      if i < n then
        some ({ ring with mem := ring.mem.writeCell me (ring.position head i) (buf.getD i 0) },
          .write buf (.copy head n (i + 1)))
      else
        some ({ ring with
            mem := ring.mem.store .release me .head (head + BitVec.ofNat 64 n)
            accepted := ring.accepted ++ buf.take n }, .written n)
  | _, _ => none

-- kbuf_map_read
def weakReadStep (me n : Nat) (ring : WeakRing) :
    MapReadPc → WeakChoice → Option (WeakRing × MapLocal)
  | .loadTail, .load i =>
      (ring.mem.load .relaxed me .tail i).map fun (tail, mem) =>
        ({ ring with mem := mem }, .read n (.loadHead tail))
  | .loadHead tail, .load i =>
      (ring.mem.load .acquire me .head i).map fun (head, mem) =>
        let avail := (head - tail).toNat
        let len := if n > avail then avail else n
        ({ ring with mem := mem }, if len = 0 then .got [] else .read n (.copy tail len []))
  | .copy tail len out, .go =>
      if out.length < len then
        let (byte, mem) := ring.mem.readCell me (ring.position tail out.length)
        some ({ ring with mem := mem }, .read n (.copy tail len (out ++ [byte])))
      else
        some ({ ring with
            mem := ring.mem.store .release me .tail (tail + BitVec.ofNat 64 len)
            returned := ring.returned ++ out }, .got out)
  | _, _ => none

-- kbuf_map_reset
def weakResetStep (me : Nat) (ring : WeakRing) :
    MapResetPc → WeakChoice → Option (WeakRing × MapLocal)
  | .storeHead, .go =>
      some ({ ring with mem := ring.mem.store .relaxed me .head 0 }, .reset .storeTail)
  | .storeTail, .go => some ({ ring with mem := ring.mem.store .relaxed me .tail 0 }, .resetDone)
  | _, _ => none

def weakEnter (ring : WeakRing) : WeakChoice → Option (WeakRing × MapLocal)
  | .start request => some (ring, request.enter)
  | _ => none

-- libkbuf, as one thread runs it.
def libkbufWeak : Program WeakRing MapLocal WeakChoice := fun me choice here ring =>
  match here with
  | .write buf pc => weakWriteStep me buf ring pc choice
  | .read n pc => weakReadStep me n ring pc choice
  | .reset pc => weakResetStep me ring pc choice
  | .idle | .written _ | .got _ | .resetDone => weakEnter ring choice

abbrev WeakMapSystem := State WeakRing MapLocal

-- A mapping of `cap` bytes whose indices have reached `index`, before the threads start.
def weakBoot (cap : Nat) (index : BitVec 64) (data : Nat → UInt8) : WeakMapSystem where
  shared :=
    { cap := cap
      mem := .fresh (fun _ => index) data
      accepted := []
      returned := [] }
  locals := fun _ => .idle

section Moves

variable {me : Nat} {ring ring' : WeakRing} {next : MapLocal}

-- What one step of kbuf_map_write does.
inductive WeakWriteMove (me : Nat) (buf : List UInt8) (ring : WeakRing) :
    MapWritePc → WeakRing → MapLocal → Prop
  | loadHead {i : Nat} {head : BitVec 64} {mem : Memory MapIndex Nat (BitVec 64) UInt8}
      (h : ring.mem.load .relaxed me .head i = some (head, mem)) :
      WeakWriteMove me buf ring .loadHead { ring with mem := mem } (.write buf (.loadTail head))
  | loadTail {i : Nat} {head tail : BitVec 64} {mem : Memory MapIndex Nat (BitVec 64) UInt8}
      {n : Nat} (h : ring.mem.load .acquire me .tail i = some (tail, mem))
      (hn : n = min buf.length (BitVec.ofNat 64 ring.cap - (head - tail)).toNat) :
      WeakWriteMove me buf ring (.loadTail head) { ring with mem := mem }
        (if n = 0 then .written 0 else .write buf (.copy head n 0))
  | byte {head : BitVec 64} {n i : Nat} (h : i < n) :
      WeakWriteMove me buf ring (.copy head n i)
        { ring with mem := ring.mem.writeCell me (ring.position head i) (buf.getD i 0) }
        (.write buf (.copy head n (i + 1)))
  | publish {head : BitVec 64} {n i : Nat} (h : n ≤ i) :
      WeakWriteMove me buf ring (.copy head n i)
        { ring with
          mem := ring.mem.store .release me .head (head + BitVec.ofNat 64 n)
          accepted := ring.accepted ++ buf.take n } (.written n)

theorem clamp_eq_min (n bound : Nat) : (if n > bound then bound else n) = min n bound := by
  split <;> omega

theorem weakWriteStep_move {buf : List UInt8} {pc : MapWritePc} {choice : WeakChoice}
    (h : weakWriteStep me buf ring pc choice = some (ring', next)) :
    WeakWriteMove me buf ring pc ring' next := by
  unfold weakWriteStep at h
  split at h
  · obtain ⟨⟨head, mem⟩, hload, heq⟩ := Option.map_eq_some_iff.mp h
    obtain ⟨rfl, rfl⟩ := Prod.mk.inj heq
    exact .loadHead hload
  · obtain ⟨⟨tail, mem⟩, hload, heq⟩ := Option.map_eq_some_iff.mp h
    simp only [clamp_eq_min] at heq
    obtain ⟨rfl, rfl⟩ := Prod.mk.inj heq
    exact .loadTail hload rfl
  · split at h
    · obtain ⟨rfl, rfl⟩ := Prod.mk.inj (Option.some.inj h)
      exact .byte ‹_›
    · obtain ⟨rfl, rfl⟩ := Prod.mk.inj (Option.some.inj h)
      exact .publish (Nat.le_of_not_lt ‹_›)
  · cases h

-- What one step of kbuf_map_read does.
inductive WeakReadMove (me n : Nat) (ring : WeakRing) :
    MapReadPc → WeakRing → MapLocal → Prop
  | loadTail {i : Nat} {tail : BitVec 64} {mem : Memory MapIndex Nat (BitVec 64) UInt8}
      (h : ring.mem.load .relaxed me .tail i = some (tail, mem)) :
      WeakReadMove me n ring .loadTail { ring with mem := mem } (.read n (.loadHead tail))
  | loadHead {i : Nat} {head tail : BitVec 64} {mem : Memory MapIndex Nat (BitVec 64) UInt8}
      {len : Nat} (h : ring.mem.load .acquire me .head i = some (head, mem))
      (hlen : len = min n (head - tail).toNat) :
      WeakReadMove me n ring (.loadHead tail) { ring with mem := mem }
        (if len = 0 then .got [] else .read n (.copy tail len []))
  | byte {tail : BitVec 64} {len : Nat} {out : List UInt8} (h : out.length < len) :
      WeakReadMove me n ring (.copy tail len out)
        { ring with mem := ring.mem.touch me (ring.position tail out.length) .read }
        (.read n (.copy tail len (out ++ [ring.mem.cell (ring.position tail out.length)])))
  | publish {tail : BitVec 64} {len : Nat} {out : List UInt8} (h : len ≤ out.length) :
      WeakReadMove me n ring (.copy tail len out)
        { ring with
          mem := ring.mem.store .release me .tail (tail + BitVec.ofNat 64 len)
          returned := ring.returned ++ out } (.got out)

theorem weakReadStep_move {n : Nat} {pc : MapReadPc} {choice : WeakChoice}
    (h : weakReadStep me n ring pc choice = some (ring', next)) :
    WeakReadMove me n ring pc ring' next := by
  unfold weakReadStep at h
  split at h
  · obtain ⟨⟨tail, mem⟩, hload, heq⟩ := Option.map_eq_some_iff.mp h
    obtain ⟨rfl, rfl⟩ := Prod.mk.inj heq
    exact .loadTail hload
  · obtain ⟨⟨head, mem⟩, hload, heq⟩ := Option.map_eq_some_iff.mp h
    simp only [clamp_eq_min] at heq
    obtain ⟨rfl, rfl⟩ := Prod.mk.inj heq
    exact .loadHead hload rfl
  · split at h
    · obtain ⟨rfl, rfl⟩ := Prod.mk.inj (Option.some.inj h)
      exact .byte ‹_›
    · obtain ⟨rfl, rfl⟩ := Prod.mk.inj (Option.some.inj h)
      exact .publish (Nat.le_of_not_lt ‹_›)
  · cases h

-- Every step of libkbuf, by the function it is a step of.
inductive WeakMove (me : Nat) (ring : WeakRing) :
    WeakChoice → MapLocal → WeakRing → MapLocal → Prop
  | enter {here : MapLocal} (request : MapRequest) :
      WeakMove me ring (.start request) here ring request.enter
  | write {choice : WeakChoice} {buf : List UInt8} {pc : MapWritePc} {ring' : WeakRing}
      {next : MapLocal} (h : WeakWriteMove me buf ring pc ring' next) :
      WeakMove me ring choice (.write buf pc) ring' next
  | read {choice : WeakChoice} {n : Nat} {pc : MapReadPc} {ring' : WeakRing} {next : MapLocal}
      (h : WeakReadMove me n ring pc ring' next) : WeakMove me ring choice (.read n pc) ring' next
  | reset {choice : WeakChoice} {pc : MapResetPc} {ring' : WeakRing} {next : MapLocal}
      (h : weakResetStep me ring pc choice = some (ring', next)) :
      WeakMove me ring choice (.reset pc) ring' next

theorem libkbufWeak_move {choice : WeakChoice} {here : MapLocal}
    (h : libkbufWeak me choice here ring = some (ring', next)) :
    WeakMove me ring choice here ring' next := by
  cases here with
  | write buf pc => exact .write (weakWriteStep_move h)
  | read n pc => exact .read (weakReadStep_move h)
  | reset pc => exact .reset h
  | idle | written | got | resetDone =>
      cases choice <;> simp only [libkbufWeak, weakEnter, reduceCtorEq, Option.some.injEq] at h
      obtain ⟨rfl, rfl⟩ := Prod.mk.inj h
      exact .enter _

theorem weak_step_move {s t : WeakMapSystem} {act : Act WeakChoice}
    (h : step libkbufWeak s act = some t) :
    ∃ ring here, WeakMove act.pid s.shared act.choice (s.locals act.pid) ring here ∧
      t = s.put act.pid (ring, here) := by
  obtain ⟨⟨ring, here⟩, hp, rfl⟩ := step_eq_some h
  exact ⟨ring, here, libkbufWeak_move hp, rfl⟩

theorem WeakMove.handsOver {choice : WeakChoice} {here : MapLocal}
    (h : WeakMove me ring choice here ring' next) :
    HandsOver here next ring.accepted ring.returned ring'.accepted ring'.returned := by
  cases h with
  | enter request => exact .enter here request
  | write h =>
      cases h with
      | loadHead | byte => exact .none rfl rfl
      | loadTail =>
          split
          · exact .full
          · exact .none rfl rfl
      | publish => exact .written _
  | read h =>
      cases h with
      | loadTail | byte => exact .none rfl rfl
      | loadHead =>
          split
          · exact .empty
          · exact .none rfl rfl
      | publish => exact .got _
  | @reset _ pc _ _ h =>
      cases pc <;> cases choice <;> simp only [weakResetStep, reduceCtorEq, Option.some.injEq] at h
      · obtain ⟨rfl, rfl⟩ := Prod.mk.inj h
        exact .none rfl rfl
      · obtain ⟨rfl, rfl⟩ := Prod.mk.inj h
        exact .none rfl rfl

theorem libkbufWeak_histories {cap : Nat} {index : BitVec 64} {data : Nat → UInt8}
    {acts : List (Act WeakChoice)} {s : WeakMapSystem}
    (hrun : run libkbufWeak (weakBoot cap index data) acts = some s) :
    s.shared.accepted =
        (observed libkbufWeak MapLocal.took (weakBoot cap index data) acts).flatten ∧
      s.shared.returned =
        (observed libkbufWeak MapLocal.gave (weakBoot cap index data) acts).flatten := by
  have hstep (s t : WeakMapSystem) (act : Act WeakChoice) (h : step libkbufWeak s act = some t) :
      HandsOver (s.locals act.pid) (t.locals act.pid) s.shared.accepted s.shared.returned
        t.shared.accepted t.shared.returned := by
    obtain ⟨ring, next, hmove, rfl⟩ := weak_step_move h
    rw [State.put_shared, State.put_locals_self]
    exact hmove.handsOver
  constructor
  · exact history_eq_observed WeakRing.accepted
      (fun s act t h => (hstep s t act h).accepted_eq) hrun
  · exact history_eq_observed WeakRing.returned
      (fun s act t h => (hstep s t act h).returned_eq) hrun

end Moves

end Kbuf
