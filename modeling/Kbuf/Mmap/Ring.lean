import Kbuf.Lib.Interleaving
import Mathlib.Data.BitVec

namespace Kbuf

open Interleaving

-- What the two sides of a mapping share: the indices of struct kbuf_mmap_ctrl and
-- the data ring. `accepted` and `returned` are the bytes that went through so
-- far. No step reads them.
structure MapRing where
  cap : Nat
  head : BitVec 64
  tail : BitVec 64
  data : List UInt8
  accepted : List UInt8
  returned : List UInt8
  deriving DecidableEq

-- `index & (cap - 1)`
def MapRing.offset (ring : MapRing) (index : BitVec 64) : Nat :=
  (index &&& (BitVec.ofNat 64 ring.cap - 1)).toNat

-- The ring is mapped twice in a row, so byte `off` of the mapping is byte
-- `off mod cap` of the ring.
def MapRing.byte (ring : MapRing) (off : Nat) : UInt8 := ring.data.getD (off % ring.cap) 0

def MapRing.setByte (ring : MapRing) (off : Nat) (value : UInt8) : MapRing :=
  { ring with data := ring.data.set (off % ring.cap) value }

inductive MapWritePc where
  | loadHead
  | loadTail (head : BitVec 64)
  | copy (head : BitVec 64) (n i : Nat)
  deriving DecidableEq

inductive MapReadPc where
  | loadTail
  | loadHead (tail : BitVec 64)
  | copy (tail : BitVec 64) (n : Nat) (out : List UInt8)
  deriving DecidableEq

inductive MapResetPc where
  | storeHead
  | storeTail
  deriving DecidableEq

inductive MapRequest where
  | write (buf : List UInt8)
  | read (n : Nat)
  | reset

inductive MapChoice where
  | start (request : MapRequest)
  | go

-- Where a process is in libkbuf, or what its last call returned.
inductive MapLocal where
  | idle
  | write (buf : List UInt8) (pc : MapWritePc)
  | read (n : Nat) (pc : MapReadPc)
  | reset (pc : MapResetPc)
  | written (n : Nat)
  | got (out : List UInt8)
  | resetDone
  deriving DecidableEq

-- kbuf_map_write, one load, store or copied byte at a time. `n` is the length of `buf`.
def mapWriteStep (buf : List UInt8) (ring : MapRing) : MapWritePc → MapRing × MapLocal
  | .loadHead => (ring, .write buf (.loadTail ring.head))
  | .loadTail head =>
      let space := (BitVec.ofNat 64 ring.cap - (head - ring.tail)).toNat
      let n := if buf.length > space then space else buf.length
      if n = 0 then (ring, .written 0) else (ring, .write buf (.copy head n 0))
  | .copy head n i =>
      if i < n then
        (ring.setByte (ring.offset head + i) (buf.getD i 0), .write buf (.copy head n (i + 1)))
      else
        ({ ring with
            head := head + BitVec.ofNat 64 n
            accepted := ring.accepted ++ buf.take n }, .written n)

-- kbuf_map_read, one load, store or copied byte at a time
def mapReadStep (n : Nat) (ring : MapRing) : MapReadPc → MapRing × MapLocal
  | .loadTail => (ring, .read n (.loadHead ring.tail))
  | .loadHead tail =>
      let avail := (ring.head - tail).toNat
      let len := if n > avail then avail else n
      if len = 0 then (ring, .got []) else (ring, .read n (.copy tail len []))
  | .copy tail len out =>
      if out.length < len then
        (ring, .read n (.copy tail len (out ++ [ring.byte (ring.offset tail + out.length)])))
      else
        ({ ring with
            tail := tail + BitVec.ofNat 64 len
            returned := ring.returned ++ out }, .got out)

-- kbuf_map_reset
def mapResetStep (ring : MapRing) : MapResetPc → MapRing × MapLocal
  | .storeHead => ({ ring with head := 0 }, .reset .storeTail)
  | .storeTail => ({ ring with tail := 0 }, .resetDone)

def MapRequest.enter : MapRequest → MapLocal
  | .write buf => .write buf .loadHead
  | .read n => .read n .loadTail
  | .reset => .reset .storeHead

def mapEnter (ring : MapRing) : MapChoice → Option (MapRing × MapLocal)
  | .start request => some (ring, request.enter)
  | .go => none

def mapGo (next : MapRing × MapLocal) : MapChoice → Option (MapRing × MapLocal)
  | .go => some next
  | .start _ => none

-- libkbuf, as one process runs it.
def libkbuf : Program MapRing MapLocal MapChoice := fun _ choice here ring =>
  match here with
  | .write buf pc => mapGo (mapWriteStep buf ring pc) choice
  | .read n pc => mapGo (mapReadStep n ring pc) choice
  | .reset pc => mapGo (mapResetStep ring pc) choice
  | .idle | .written _ | .got _ | .resetDone => mapEnter ring choice

abbrev MapSystem := State MapRing MapLocal

-- A mapping of `cap` bytes whose indices have reached `index`.
def mapBoot (cap : Nat) (index : BitVec 64) (data : List UInt8) : MapSystem where
  shared :=
    { cap := cap
      head := index
      tail := index
      data := data
      accepted := []
      returned := [] }
  locals := fun _ => .idle

section Moves

-- What one step of kbuf_map_write does.
inductive MapWriteMove (buf : List UInt8) (ring : MapRing) :
    MapWritePc → MapRing → MapLocal → Prop
  | loadHead : MapWriteMove buf ring .loadHead ring (.write buf (.loadTail ring.head))
  | full {head : BitVec 64}
      (h : min buf.length (BitVec.ofNat 64 ring.cap - (head - ring.tail)).toNat = 0) :
      MapWriteMove buf ring (.loadTail head) ring (.written 0)
  | begin {head : BitVec 64} {n : Nat}
      (hn : n = min buf.length (BitVec.ofNat 64 ring.cap - (head - ring.tail)).toNat)
      (hpos : 0 < n) : MapWriteMove buf ring (.loadTail head) ring (.write buf (.copy head n 0))
  | byte {head : BitVec 64} {n i : Nat} (h : i < n) :
      MapWriteMove buf ring (.copy head n i)
        (ring.setByte (ring.offset head + i) (buf.getD i 0)) (.write buf (.copy head n (i + 1)))
  | publish {head : BitVec 64} {n i : Nat} (h : n ≤ i) :
      MapWriteMove buf ring (.copy head n i)
        { ring with
          head := head + BitVec.ofNat 64 n
          accepted := ring.accepted ++ buf.take n } (.written n)

theorem mapWriteStep_move (buf : List UInt8) (ring : MapRing) (pc : MapWritePc) :
    MapWriteMove buf ring pc (mapWriteStep buf ring pc).1 (mapWriteStep buf ring pc).2 := by
  cases pc with
  | loadHead => exact .loadHead
  | loadTail head =>
      have hmin (space : Nat) : (if buf.length > space then space else buf.length) =
          min buf.length space := by
        split <;> omega
      simp only [mapWriteStep, hmin]
      split
      · exact .full ‹_›
      · exact .begin rfl (Nat.pos_of_ne_zero ‹_›)
  | copy head n i =>
      simp only [mapWriteStep]
      split
      · exact .byte ‹_›
      · exact .publish (Nat.le_of_not_lt ‹_›)

-- What one step of kbuf_map_read does.
inductive MapReadMove (n : Nat) (ring : MapRing) : MapReadPc → MapRing → MapLocal → Prop
  | loadTail : MapReadMove n ring .loadTail ring (.read n (.loadHead ring.tail))
  | empty {tail : BitVec 64} (h : min n (ring.head - tail).toNat = 0) :
      MapReadMove n ring (.loadHead tail) ring (.got [])
  | begin {tail : BitVec 64} {len : Nat} (hlen : len = min n (ring.head - tail).toNat)
      (hpos : 0 < len) : MapReadMove n ring (.loadHead tail) ring (.read n (.copy tail len []))
  | byte {tail : BitVec 64} {len : Nat} {out : List UInt8} (h : out.length < len) :
      MapReadMove n ring (.copy tail len out) ring
        (.read n (.copy tail len (out ++ [ring.byte (ring.offset tail + out.length)])))
  | publish {tail : BitVec 64} {len : Nat} {out : List UInt8} (h : len ≤ out.length) :
      MapReadMove n ring (.copy tail len out)
        { ring with
          tail := tail + BitVec.ofNat 64 len
          returned := ring.returned ++ out } (.got out)

theorem mapReadStep_move (n : Nat) (ring : MapRing) (pc : MapReadPc) :
    MapReadMove n ring pc (mapReadStep n ring pc).1 (mapReadStep n ring pc).2 := by
  cases pc with
  | loadTail => exact .loadTail
  | loadHead tail =>
      have hmin (avail : Nat) : (if n > avail then avail else n) = min n avail := by
        split <;> omega
      simp only [mapReadStep, hmin]
      split
      · exact .empty ‹_›
      · exact .begin rfl (Nat.pos_of_ne_zero ‹_›)
  | copy tail len out =>
      simp only [mapReadStep]
      split
      · exact .byte ‹_›
      · exact .publish (Nat.le_of_not_lt ‹_›)

-- Every step of libkbuf, by the function it is a step of.
inductive MapMove (ring : MapRing) : MapChoice → MapLocal → MapRing → MapLocal → Prop
  | enter {here : MapLocal} (request : MapRequest) :
      MapMove ring (.start request) here ring request.enter
  | write {buf : List UInt8} {pc : MapWritePc} {ring' : MapRing} {next : MapLocal}
      (h : MapWriteMove buf ring pc ring' next) : MapMove ring .go (.write buf pc) ring' next
  | read {n : Nat} {pc : MapReadPc} {ring' : MapRing} {next : MapLocal}
      (h : MapReadMove n ring pc ring' next) : MapMove ring .go (.read n pc) ring' next
  | reset (pc : MapResetPc) :
      MapMove ring .go (.reset pc) (mapResetStep ring pc).1 (mapResetStep ring pc).2

theorem libkbuf_move {me : Nat} {choice : MapChoice} {here next : MapLocal} {ring ring' : MapRing}
    (h : libkbuf me choice here ring = some (ring', next)) :
    MapMove ring choice here ring' next := by
  cases here with
  | write buf pc =>
      cases choice <;> simp only [libkbuf, mapGo, reduceCtorEq, Option.some.injEq] at h
      have hmove := mapWriteStep_move buf ring pc
      rw [h] at hmove
      exact .write hmove
  | read n pc =>
      cases choice <;> simp only [libkbuf, mapGo, reduceCtorEq, Option.some.injEq] at h
      have hmove := mapReadStep_move n ring pc
      rw [h] at hmove
      exact .read hmove
  | reset pc =>
      cases choice <;> simp only [libkbuf, mapGo, reduceCtorEq, Option.some.injEq] at h
      have hmove := @MapMove.reset ring pc
      rw [h] at hmove
      exact hmove
  | idle | written | got | resetDone =>
      cases choice <;> simp only [libkbuf, mapEnter, reduceCtorEq, Option.some.injEq] at h
      obtain ⟨rfl, rfl⟩ := Prod.mk.inj h
      exact .enter _

theorem map_step_move {s t : MapSystem} {act : Act MapChoice} (h : step libkbuf s act = some t) :
    ∃ ring here, MapMove s.shared act.choice (s.locals act.pid) ring here ∧
      t = s.put act.pid (ring, here) := by
  obtain ⟨⟨ring, here⟩, hp, rfl⟩ := step_eq_some h
  exact ⟨ring, here, libkbuf_move hp, rfl⟩

end Moves

section Returns

-- The bytes that a write has taken, noted at the step with which it returns their number.
def MapLocal.took : MapLocal → MapLocal → Option (List UInt8)
  | .write buf _, .written n => some (buf.take n)
  | _, _ => none

-- The bytes that a read hands to its caller, noted at the step with which it returns.
def MapLocal.gave : MapLocal → MapLocal → Option (List UInt8)
  | .read _ _, .got out => some out
  | _, _ => none

-- The two histories grow by what the caller of a step learns from it.
structure HandsOver (here next : MapLocal) (accepted returned accepted' returned' : List UInt8) :
    Prop where
  accepted_eq : accepted' = accepted ++ (here.took next).toList.flatten
  returned_eq : returned' = returned ++ (here.gave next).toList.flatten

variable {accepted returned : List UInt8} {here next : MapLocal} {ring ring' : MapRing}

theorem HandsOver.none (htook : here.took next = .none) (hgave : here.gave next = .none) :
    HandsOver here next accepted returned accepted returned :=
  ⟨by simp [htook], by simp [hgave]⟩

theorem HandsOver.written {buf : List UInt8} {pc : MapWritePc} (n : Nat) :
    HandsOver (.write buf pc) (.written n) accepted returned (accepted ++ buf.take n) returned :=
  ⟨by simp [MapLocal.took], by simp [MapLocal.gave]⟩

theorem HandsOver.got {n : Nat} {pc : MapReadPc} (out : List UInt8) :
    HandsOver (.read n pc) (.got out) accepted returned accepted (returned ++ out) :=
  ⟨by simp [MapLocal.took], by simp [MapLocal.gave]⟩

theorem HandsOver.full {buf : List UInt8} {pc : MapWritePc} :
    HandsOver (.write buf pc) (.written 0) accepted returned accepted returned :=
  ⟨by simp [MapLocal.took], by simp [MapLocal.gave]⟩

theorem HandsOver.empty {n : Nat} {pc : MapReadPc} :
    HandsOver (.read n pc) (.got []) accepted returned accepted returned :=
  ⟨by simp [MapLocal.took], by simp [MapLocal.gave]⟩

theorem HandsOver.refl (here : MapLocal) :
    HandsOver here here accepted returned accepted returned := by
  cases here <;> exact .none rfl rfl

theorem HandsOver.enter (here : MapLocal) (request : MapRequest) :
    HandsOver here request.enter accepted returned accepted returned := by
  cases here <;> cases request <;> exact .none rfl rfl

theorem MapMove.handsOver {choice : MapChoice} (h : MapMove ring choice here ring' next) :
    HandsOver here next ring.accepted ring.returned ring'.accepted ring'.returned := by
  cases h with
  | enter request => exact .enter here request
  | write h =>
      cases h with
      | loadHead | begin | byte => exact .none rfl rfl
      | full => exact .full
      | publish => exact .written _
  | read h =>
      cases h with
      | loadTail | begin | byte => exact .none rfl rfl
      | empty => exact .empty
      | publish => exact .got _
  | reset pc => cases pc <;> exact .none rfl rfl

-- What libkbuf has accepted and returned is what its callers were told.
theorem libkbuf_histories {cap : Nat} {index : BitVec 64} {data : List UInt8}
    {acts : List (Act MapChoice)} {s : MapSystem}
    (hrun : run libkbuf (mapBoot cap index data) acts = some s) :
    s.shared.accepted = (observed libkbuf MapLocal.took (mapBoot cap index data) acts).flatten ∧
      s.shared.returned =
        (observed libkbuf MapLocal.gave (mapBoot cap index data) acts).flatten := by
  have hstep (s t : MapSystem) (act : Act MapChoice) (h : step libkbuf s act = some t) :
      HandsOver (s.locals act.pid) (t.locals act.pid) s.shared.accepted s.shared.returned
        t.shared.accepted t.shared.returned := by
    obtain ⟨ring, next, hmove, rfl⟩ := map_step_move h
    rw [State.put_shared, State.put_locals_self]
    exact hmove.handsOver
  constructor
  · exact history_eq_observed MapRing.accepted (fun s act t h => (hstep s t act h).accepted_eq) hrun
  · exact history_eq_observed MapRing.returned (fun s act t h => (hstep s t act h).returned_eq) hrun

end Returns

end Kbuf
