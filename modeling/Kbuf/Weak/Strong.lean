import Kbuf.Weak.Mmap

namespace Kbuf

open Interleaving ReleaseAcquire

-- The weak ring in which everybody has just read the newest stores.
structure Shadows (ring : MapRing) (weak : WeakRing) : Prop where
  length : ring.data.length = ring.cap
  cap_pos : 0 < ring.cap
  cap : weak.cap = ring.cap
  head : weak.newest .head = ring.head
  tail : weak.newest .tail = ring.tail
  cell : ∀ k, k < ring.cap → weak.mem.cell k = ring.data.getD k 0
  accepted : weak.accepted = ring.accepted
  returned : weak.returned = ring.returned
  valid : weak.mem.Valid

section Newest

variable {weak : WeakRing} {me : Nat}

theorem newest_store_self (order : StoreOrder) (l : MapIndex) (value : BitVec 64) :
    { weak with mem := weak.mem.store order me l value }.newest l = value := by
  simp [WeakRing.newest, store_history_self, Memory.message]

theorem newest_store_of_ne (order : StoreOrder) {l l' : MapIndex} (value : BitVec 64)
    (hl : l' ≠ l) :
    { weak with mem := weak.mem.store order me l value }.newest l' = weak.newest l' := by
  simp [WeakRing.newest, store_history_of_ne order value hl]

end Newest

section Steps

variable {ring : MapRing} {weak : WeakRing}

theorem Shadows.position_eq (h : Shadows ring weak) (index : BitVec 64) (i : Nat) :
    weak.position index i = (ring.offset index + i) % ring.cap := by
  rw [WeakRing.position, h.cap]
  rfl

-- Each load has a newest store to return, and then nothing but views changes.
theorem Shadows.load (h : Shadows ring weak) (order : LoadOrder) (me : Nat) (l : MapIndex) :
    ∃ i mem, weak.mem.load order me l i = some (weak.newest l, mem) ∧
      Shadows ring { weak with mem := mem } := by
  obtain ⟨message, mem, hlast, hload⟩ := load_newest h.valid order me l
  have hvalue : weak.newest l = message.value := by rw [WeakRing.newest, hlast]; rfl
  have hvalid := h.valid.load hload
  refine ⟨_, mem, by rw [hvalue]; exact hload, ?_⟩
  obtain ⟨_, -, -, -, rfl⟩ := load_eq_some hload
  exact ⟨h.length, h.cap_pos, h.cap, h.head, h.tail, h.cell, h.accepted, h.returned, hvalid⟩

theorem Shadows.setByte (h : Shadows ring weak) (me off : Nat) (value : UInt8) :
    Shadows (ring.setByte off value)
      { weak with mem := weak.mem.writeCell me (off % ring.cap) value } where
  length := by rw [MapRing.setByte, List.length_set]; exact h.length
  cap_pos := h.cap_pos
  cap := h.cap
  head := h.head
  tail := h.tail
  cell k hk := by
    by_cases heq : k = off % ring.cap
    · subst heq
      have hlt : off % ring.cap < ring.data.length := by rw [h.length]; exact hk
      simp [Memory.writeCell, MapRing.setByte, hlt]
    · have hsame := h.cell k hk
      simpa [Memory.writeCell, MapRing.setByte, heq, List.getElem?_set_ne (Ne.symm heq)] using hsame
  accepted := h.accepted
  returned := h.returned
  valid := h.valid.writeCell _ value

theorem Shadows.noteAccepted (h : Shadows ring weak) (bytes : List UInt8) :
    Shadows { ring with accepted := ring.accepted ++ bytes }
      { weak with accepted := weak.accepted ++ bytes } :=
  { h with accepted := congrArg (· ++ bytes) h.accepted }

theorem Shadows.noteReturned (h : Shadows ring weak) (bytes : List UInt8) :
    Shadows { ring with returned := ring.returned ++ bytes }
      { weak with returned := weak.returned ++ bytes } :=
  { h with returned := congrArg (· ++ bytes) h.returned }

theorem Shadows.touch (h : Shadows ring weak) (me off : Nat) :
    Shadows ring { weak with mem := weak.mem.touch me (off % ring.cap) .read } :=
  ⟨h.length, h.cap_pos, h.cap, h.head, h.tail, h.cell, h.accepted, h.returned,
    h.valid.touch _ .read⟩

theorem Shadows.storeHead (h : Shadows ring weak) (me : Nat) (order : StoreOrder)
    (value : BitVec 64) :
    Shadows { ring with head := value }
      { weak with mem := weak.mem.store order me .head value } :=
  ⟨h.length, h.cap_pos, h.cap, newest_store_self order .head value,
    (newest_store_of_ne order value (by decide)).trans h.tail, h.cell, h.accepted, h.returned,
    h.valid.store order .head value⟩

theorem Shadows.storeTail (h : Shadows ring weak) (me : Nat) (order : StoreOrder)
    (value : BitVec 64) :
    Shadows { ring with tail := value }
      { weak with mem := weak.mem.store order me .tail value } :=
  ⟨h.length, h.cap_pos, h.cap, (newest_store_of_ne order value (by decide)).trans h.head,
    newest_store_self order .tail value, h.cell, h.accepted, h.returned,
    h.valid.store order .tail value⟩

theorem Shadows.write (h : Shadows ring weak) (me : Nat) {buf : List UInt8} {pc : MapWritePc}
    {ring' : MapRing} {next : MapLocal} (hmove : MapWriteMove buf ring pc ring' next) :
    ∃ choice weak', weakWriteStep me buf weak pc choice = some (weak', next) ∧
      Shadows ring' weak' := by
  cases hmove with
  | loadHead =>
      obtain ⟨i, mem, hload, hnext⟩ := h.load .relaxed me .head
      refine ⟨.load i, _, ?_, hnext⟩
      rw [weakWriteStep, hload, h.head]
      rfl
  | @full head hn =>
      obtain ⟨i, mem, hload, hnext⟩ := h.load .acquire me .tail
      refine ⟨.load i, _, ?_, hnext⟩
      simp only [weakWriteStep, hload, Option.map_some, clamp_eq_min, h.tail, h.cap, hn, if_true]
  | @begin head n hn hpos =>
      obtain ⟨i, mem, hload, hnext⟩ := h.load .acquire me .tail
      refine ⟨.load i, _, ?_, hnext⟩
      simp only [weakWriteStep, hload, Option.map_some, clamp_eq_min, h.tail, h.cap, ← hn,
        if_neg (Nat.ne_of_gt hpos)]
  | @byte head n i hi =>
      refine ⟨.go, _, ?_, h.setByte me (ring.offset head + i) (buf.getD i 0)⟩
      rw [weakWriteStep, if_pos hi, h.position_eq]
  | @publish head n i hi =>
      exact ⟨.go, _, by rw [weakWriteStep, if_neg (by omega)],
        (h.noteAccepted (buf.take n)).storeHead me .release _⟩

theorem Shadows.read (h : Shadows ring weak) (me : Nat) {n : Nat} {pc : MapReadPc} {ring' : MapRing}
    {next : MapLocal} (hmove : MapReadMove n ring pc ring' next) :
    ∃ choice weak', weakReadStep me n weak pc choice = some (weak', next) ∧
      Shadows ring' weak' := by
  cases hmove with
  | loadTail =>
      obtain ⟨i, mem, hload, hnext⟩ := h.load .relaxed me .tail
      refine ⟨.load i, _, ?_, hnext⟩
      rw [weakReadStep, hload, h.tail]
      rfl
  | @empty tail hlen =>
      obtain ⟨i, mem, hload, hnext⟩ := h.load .acquire me .head
      refine ⟨.load i, _, ?_, hnext⟩
      simp only [weakReadStep, hload, Option.map_some, clamp_eq_min, h.head, hlen, if_true]
  | @begin tail len hlen hpos =>
      obtain ⟨i, mem, hload, hnext⟩ := h.load .acquire me .head
      refine ⟨.load i, _, ?_, hnext⟩
      simp only [weakReadStep, hload, Option.map_some, clamp_eq_min, h.head, ← hlen,
        if_neg (Nat.ne_of_gt hpos)]
  | @byte tail len out hout =>
      have hcell := h.cell _ (Nat.mod_lt (ring.offset tail + out.length) h.cap_pos)
      refine ⟨.go, _, ?_, h.touch me (ring.offset tail + out.length)⟩
      rw [weakReadStep, if_pos hout, h.position_eq, Memory.readCell]
      simp only [hcell]
      rfl
  | @publish tail len out hout =>
      exact ⟨.go, _, by rw [weakReadStep, if_neg (by omega)],
        (h.noteReturned out).storeTail me .release _⟩

theorem Shadows.reset (h : Shadows ring weak) (me : Nat) (pc : MapResetPc) :
    ∃ weak', weakResetStep me weak pc .go = some (weak', (mapResetStep ring pc).2) ∧
      Shadows (mapResetStep ring pc).1 weak' := by
  cases pc with
  | storeHead => exact ⟨_, rfl, h.storeHead me .relaxed 0⟩
  | storeTail => exact ⟨_, rfl, h.storeTail me .relaxed 0⟩

theorem Shadows.move (h : Shadows ring weak) {me : Nat} {choice : MapChoice} {here next : MapLocal}
    {ring' : MapRing} (hstep : libkbuf me choice here ring = some (ring', next)) :
    ∃ own weak', libkbufWeak me own here weak = some (weak', next) ∧ Shadows ring' weak' := by
  have hmove := libkbuf_move hstep
  cases hmove with
  | enter request =>
      refine ⟨.start request, weak, ?_, h⟩
      cases here with
      | write | read | reset => exact absurd hstep (by simp [libkbuf, mapGo])
      | idle | written | got | resetDone => rfl
  | write hw => exact h.write me hw
  | read hr => exact h.read me hr
  | reset pc =>
      obtain ⟨weak', hweak, hnext⟩ := h.reset me pc
      exact ⟨.go, weak', hweak, hnext⟩

end Steps

section Runs

variable {cap : Nat} {index : BitVec 64} {data : List UInt8} {s : MapSystem}
  {acts : List (Act MapChoice)}

-- Whatever an interleaving of whole loads and stores does is a run of the weak machine.
theorem weak_of_strong (hdata : data.length = cap) (hcap : 0 < cap)
    (hrun : run libkbuf (mapBoot cap index data) acts = some s) :
    ∃ owns t, owns.map Act.pid = acts.map Act.pid ∧
      run libkbufWeak (weakBoot cap index fun k => data.getD k 0) owns = some t ∧
      t.locals = s.locals ∧ Shadows s.shared t.shared := by
  have hmove (s : MapSystem) (u : WeakMapSystem) (act : Act MapChoice) (t : MapSystem)
      (hrel : u.locals = s.locals ∧ Shadows s.shared u.shared)
      (hstep : step libkbuf s act = some t) :
      ∃ own v, own.pid = act.pid ∧ step libkbufWeak u own = some v ∧
        v.locals = t.locals ∧ Shadows t.shared v.shared := by
    obtain ⟨hlocals, hshadows⟩ := hrel
    obtain ⟨⟨ring, next⟩, hp, rfl⟩ := step_eq_some hstep
    obtain ⟨choice, weak, hweak, hnext⟩ := hshadows.move hp
    rw [← hlocals] at hweak
    refine ⟨⟨act.pid, choice⟩, u.put act.pid (weak, next), rfl, ?_, ?_, hnext⟩
    · rw [step, hweak]
      rfl
    · rw [State.put, State.put, hlocals]
  exact run_followed hmove ⟨rfl, hdata, hcap, rfl, rfl, rfl, fun _ _ => rfl, rfl, rfl,
    fresh_valid _ _⟩ hrun

end Runs

end Kbuf
