import Kbuf.Lib.Circular
import Kbuf.Lib.FreeRunning
import Kbuf.Mmap.Ring

namespace Kbuf

open Interleaving Circular FreeRunning

section Definitions

def MapRing.cell (ring : MapRing) (position : Nat) : UInt8 := ring.data.getD position 0

-- The bytes between `tail` and `head`, oldest first.
def MapRing.unread (ring : MapRing) : List UInt8 :=
  window ring.cell ring.cap ring.tail.toNat (depth ring.head ring.tail)

structure StreamOk (ring : MapRing) : Prop where
  power : ring.cap.isPowerOfTwo
  cap_lt : ring.cap < 2 ^ 64
  length : ring.data.length = ring.cap
  depth_le : depth ring.head ring.tail ≤ ring.cap
  stream : ring.accepted = ring.returned ++ ring.unread

-- What the producer knows at each point.
def MapWriterOk (ring : MapRing) (buf : List UInt8) : MapWritePc → Prop
  | .loadHead => True
  | .loadTail head => head = ring.head
  | .copy head n i =>
      head = ring.head ∧ n ≤ buf.length ∧ depth ring.head ring.tail + n ≤ ring.cap ∧ i ≤ n ∧
        ∀ j, j < i → ring.cell ((ring.head.toNat + j) % ring.cap) = buf.getD j 0

-- What the consumer knows at each point.
def MapReaderOk (ring : MapRing) : MapReadPc → Prop
  | .loadTail => True
  | .loadHead tail => tail = ring.tail
  | .copy tail len out =>
      tail = ring.tail ∧ len ≤ depth ring.head ring.tail ∧ out.length ≤ len ∧
        out = window ring.cell ring.cap ring.tail.toNat out.length

def MapLocal.Ok (producer consumer : Nat) (ring : MapRing) (p : Nat) : MapLocal → Prop
  | .write buf pc => p = producer ∧ MapWriterOk ring buf pc
  | .read _ pc => p = consumer ∧ MapReaderOk ring pc
  | .reset _ => False
  | .idle | .written _ | .got _ | .resetDone => True

end Definitions

section Ring

variable {ring : MapRing}

theorem StreamOk.cap_pos (h : StreamOk ring) : 0 < ring.cap := Nat.pos_of_isPowerOfTwo h.power

theorem StreamOk.dvd (h : StreamOk ring) : ring.cap ∣ 2 ^ 64 := dvd_two_pow h.power h.cap_lt

theorem StreamOk.offset_add_mod (h : StreamOk ring) (index : BitVec 64) (i : Nat) :
    (ring.offset index + i) % ring.cap = (index.toNat + i) % ring.cap := by
  rw [MapRing.offset, mask_eq_mod h.power h.cap_lt, Nat.mod_add_mod]

-- The producer's next byte goes right behind the unread ones.
theorem StreamOk.head_add_mod (h : StreamOk ring) (i : Nat) :
    (ring.head.toNat + i) % ring.cap =
      (ring.tail.toNat + (depth ring.head ring.tail + i)) % ring.cap := by
  rw [← Nat.add_assoc, ← Nat.mod_add_mod, head_mod h.dvd ring.head ring.tail, Nat.mod_add_mod]

theorem StreamOk.space_eq (h : StreamOk ring) :
    (BitVec.ofNat 64 ring.cap - (ring.head - ring.tail)).toNat =
      ring.cap - depth ring.head ring.tail := by
  have hcap : (BitVec.ofNat 64 ring.cap).toNat = ring.cap := by
    rw [BitVec.toNat_ofNat, Nat.mod_eq_of_lt h.cap_lt]
  rw [BitVec.toNat_sub_of_le, hcap]
  · rfl
  · rw [BitVec.le_def, hcap]
    exact h.depth_le

theorem cell_setByte_of_ne {off position : Nat} (value : UInt8) (h : position ≠ off % ring.cap) :
    (ring.setByte off value).cell position = ring.cell position := by
  simp [MapRing.cell, MapRing.setByte, List.getElem?_set_ne (Ne.symm h)]

theorem StreamOk.cell_setByte_self (h : StreamOk ring) (off : Nat) (value : UInt8) :
    (ring.setByte off value).cell (off % ring.cap) = value := by
  have hlt : off % ring.cap < ring.data.length := by
    rw [h.length]
    exact Nat.mod_lt _ h.cap_pos
  simp [MapRing.cell, MapRing.setByte, hlt]

-- A byte stored in the free part is seen by nobody else.
theorem StreamOk.window_setByte (h : StreamOk ring) {i len : Nat} (value : UInt8)
    (hroom : depth ring.head ring.tail + i < ring.cap) (hlen : len ≤ depth ring.head ring.tail) :
    window (ring.setByte (ring.head.toNat + i) value).cell ring.cap ring.tail.toNat len =
      window ring.cell ring.cap ring.tail.toNat len := by
  apply window_eq_of_eq_off _ _ _ (depth ring.head ring.tail + i) (by omega) hroom
  intro position hne
  apply cell_setByte_of_ne
  rw [h.head_add_mod]
  exact hne

theorem StreamOk.setByte (h : StreamOk ring) {i : Nat} (value : UInt8)
    (hroom : depth ring.head ring.tail + i < ring.cap) :
    StreamOk (ring.setByte (ring.head.toNat + i) value) where
  power := h.power
  cap_lt := h.cap_lt
  length := by rw [MapRing.setByte, List.length_set]; exact h.length
  depth_le := h.depth_le
  stream := by
    have hsame : (ring.setByte (ring.head.toNat + i) value).unread = ring.unread :=
      h.window_setByte value hroom (Nat.le_refl _)
    rw [hsame]
    exact h.stream

theorem MapReaderOk.setByte {pc : MapReadPc} (h : StreamOk ring) {i : Nat} (value : UInt8)
    (hroom : depth ring.head ring.tail + i < ring.cap) (hpc : MapReaderOk ring pc) :
    MapReaderOk (ring.setByte (ring.head.toNat + i) value) pc := by
  cases pc with
  | loadTail => trivial
  | loadHead tail => exact hpc
  | copy tail len out =>
      obtain ⟨htail, hlen, hout, hbytes⟩ := hpc
      refine ⟨htail, hlen, hout, hbytes.trans ?_⟩
      exact (h.window_setByte value hroom (hout.trans hlen)).symm

-- Publishing `n` stored bytes appends them to the unread ones.
theorem StreamOk.publish (h : StreamOk ring) {n : Nat} {bytes : List UInt8}
    (hroom : depth ring.head ring.tail + n ≤ ring.cap)
    (hbytes : window ring.cell ring.cap ring.head.toNat n = bytes) :
    StreamOk { ring with
      head := ring.head + BitVec.ofNat 64 n
      accepted := ring.accepted ++ bytes } := by
  have hlt := h.cap_lt
  have hdepth : depth (ring.head + BitVec.ofNat 64 n) ring.tail = depth ring.head ring.tail + n :=
    depth_advance_head _ _ _ (by omega)
  refine ⟨h.power, h.cap_lt, h.length, ?_, ?_⟩
  · change depth (ring.head + BitVec.ofNat 64 n) ring.tail ≤ ring.cap
    omega
  · change ring.accepted ++ bytes = ring.returned ++
      window ring.cell ring.cap ring.tail.toNat (depth (ring.head + BitVec.ofNat 64 n) ring.tail)
    have hstart : window ring.cell ring.cap (ring.tail.toNat + depth ring.head ring.tail) n =
        bytes := by
      rw [← hbytes]
      exact window_start_congr _ _ (head_mod h.dvd ring.head ring.tail).symm
    rw [hdepth, window_add, hstart, ← List.append_assoc, h.stream]
    rfl

theorem MapReaderOk.publish {pc : MapReadPc} {n : Nat} {bytes : List UInt8} (h : StreamOk ring)
    (hroom : depth ring.head ring.tail + n ≤ ring.cap) (hpc : MapReaderOk ring pc) :
    MapReaderOk { ring with
      head := ring.head + BitVec.ofNat 64 n
      accepted := ring.accepted ++ bytes } pc := by
  have hlt := h.cap_lt
  have hdepth : depth (ring.head + BitVec.ofNat 64 n) ring.tail = depth ring.head ring.tail + n :=
    depth_advance_head _ _ _ (by omega)
  cases pc with
  | loadTail => trivial
  | loadHead tail => exact hpc
  | copy tail len out =>
      obtain ⟨htail, hlen, hout, hbytes⟩ := hpc
      refine ⟨htail, ?_, hout, hbytes⟩
      change len ≤ depth (ring.head + BitVec.ofNat 64 n) ring.tail
      omega

-- Releasing the oldest `n` bytes hands them over.
theorem StreamOk.release (h : StreamOk ring) {n : Nat} (hn : n ≤ depth ring.head ring.tail) :
    StreamOk { ring with
      tail := ring.tail + BitVec.ofNat 64 n
      returned := ring.returned ++ window ring.cell ring.cap ring.tail.toNat n } := by
  have hle := h.depth_le
  have hdepth : depth ring.head (ring.tail + BitVec.ofNat 64 n) = depth ring.head ring.tail - n :=
    depth_advance_tail _ _ _ hn
  refine ⟨h.power, h.cap_lt, h.length, ?_, ?_⟩
  · change depth ring.head (ring.tail + BitVec.ofNat 64 n) ≤ ring.cap
    omega
  · change ring.accepted = ring.returned ++ window ring.cell ring.cap ring.tail.toNat n ++
      window ring.cell ring.cap (ring.tail + BitVec.ofNat 64 n).toNat
        (depth ring.head (ring.tail + BitVec.ofNat 64 n))
    have hstart := window_start_congr ring.cell (depth ring.head ring.tail - n)
      (advance_mod h.dvd ring.tail n)
    have hsplit : ring.unread = window ring.cell ring.cap ring.tail.toNat n ++
        window ring.cell ring.cap (ring.tail.toNat + n) (depth ring.head ring.tail - n) := by
      rw [← window_add, Nat.add_sub_cancel' hn]
      rfl
    rw [hdepth, hstart, List.append_assoc, ← hsplit]
    exact h.stream

theorem MapWriterOk.release {buf out : List UInt8} {pc : MapWritePc} {n : Nat}
    (hn : n ≤ depth ring.head ring.tail) (hpc : MapWriterOk ring buf pc) :
    MapWriterOk { ring with
      tail := ring.tail + BitVec.ofNat 64 n
      returned := ring.returned ++ out } buf pc := by
  have hdepth : depth ring.head (ring.tail + BitVec.ofNat 64 n) = depth ring.head ring.tail - n :=
    depth_advance_tail _ _ _ hn
  cases pc with
  | loadHead => trivial
  | loadTail head => exact hpc
  | copy head len i =>
      obtain ⟨hhead, hlen, hroom, hrest⟩ := hpc
      refine ⟨hhead, hlen, ?_, hrest⟩
      change depth ring.head (ring.tail + BitVec.ofNat 64 n) + len ≤ ring.cap
      omega

end Ring

section Steps

variable {producer consumer me : Nat} {ring ring' : MapRing} {next : MapLocal}

theorem MapWriteMove.stream_step {buf : List UInt8} {pc : MapWritePc} (hok : StreamOk ring)
    (hme : me = producer) (hpc : MapWriterOk ring buf pc)
    (h : MapWriteMove buf ring pc ring' next) :
    StreamOk ring' ∧ next.Ok producer consumer ring' me ∧
      ∀ pc, MapReaderOk ring pc → MapReaderOk ring' pc := by
  cases h with
  | loadHead => exact ⟨hok, ⟨hme, rfl⟩, fun _ => id⟩
  | full => exact ⟨hok, trivial, fun _ => id⟩
  | begin hn hpos =>
      obtain rfl := hpc
      have hle := hok.depth_le
      rw [hok.space_eq] at hn
      exact ⟨hok, ⟨hme, rfl, by omega, by omega, Nat.zero_le _, fun j hj => by omega⟩, fun _ => id⟩
  | @byte head n i hi =>
      obtain ⟨rfl, hn, hroom, -, hbytes⟩ := hpc
      have hfree : depth ring.head ring.tail + i < ring.cap := by omega
      have hset : ring.setByte (ring.offset ring.head + i) (buf.getD i 0) =
          ring.setByte (ring.head.toNat + i) (buf.getD i 0) := by
        rw [MapRing.setByte, hok.offset_add_mod, MapRing.setByte]
      rw [hset]
      refine ⟨hok.setByte _ hfree, ⟨hme, rfl, hn, hroom, hi, fun j hj => ?_⟩,
        fun pc hreader => hreader.setByte hok _ hfree⟩
      by_cases hij : j = i
      · subst hij
        exact hok.cell_setByte_self _ _
      · refine (cell_setByte_of_ne _ ?_).trans (hbytes j (by omega))
        exact position_ne ring.cap ring.head.toNat (by omega) (by omega)
  | @publish head n i hi =>
      obtain ⟨rfl, hn, hroom, hle, hbytes⟩ := hpc
      have htake : window ring.cell ring.cap ring.head.toNat n = buf.take n := by
        apply window_eq_take
        intro j hj
        have hlt : j < buf.length := by omega
        rw [hbytes j (by omega), List.getElem?_eq_getElem hlt]
        simp [List.getD_eq_getElem?_getD, hlt]
      exact ⟨hok.publish hroom htake, trivial, fun pc hreader => hreader.publish hok hroom⟩

theorem MapReadMove.stream_step {n : Nat} {pc : MapReadPc} (hok : StreamOk ring)
    (hme : me = consumer) (hpc : MapReaderOk ring pc) (h : MapReadMove n ring pc ring' next) :
    StreamOk ring' ∧ next.Ok producer consumer ring' me ∧
      ∀ buf pc, MapWriterOk ring buf pc → MapWriterOk ring' buf pc := by
  cases h with
  | loadTail => exact ⟨hok, ⟨hme, rfl⟩, fun _ _ => id⟩
  | empty => exact ⟨hok, trivial, fun _ _ => id⟩
  | begin hlen hpos =>
      obtain rfl := hpc
      have hle : depth ring.head ring.tail = (ring.head - ring.tail).toNat := rfl
      exact ⟨hok, ⟨hme, rfl, by omega, Nat.zero_le _, rfl⟩, fun _ _ => id⟩
  | @byte tail len out hout =>
      obtain ⟨rfl, hlen, -, hbytes⟩ := hpc
      refine ⟨hok, ⟨hme, rfl, hlen, ?_, ?_⟩, fun _ _ => id⟩
      · rw [List.length_append]
        exact hout
      · rw [List.length_append, List.length_singleton, window_succ, ← hbytes, MapRing.byte,
          hok.offset_add_mod]
        rfl
  | @publish tail len out hout =>
      obtain ⟨rfl, hlen, hle, hbytes⟩ := hpc
      obtain rfl : out.length = len := Nat.le_antisymm hle hout
      have hrelease := hok.release hlen
      rw [← hbytes] at hrelease
      exact ⟨hrelease, trivial, fun buf pc hwriter => hwriter.release hlen⟩

end Steps

structure StreamInv (producer consumer : Nat) (s : MapSystem) : Prop where
  ring : StreamOk s.shared
  local_ok : ∀ p, (s.locals p).Ok producer consumer s.shared p

-- One process writes, one reads, and nobody resets the ring.
def MapStarting (producer consumer : Nat) (_ : MapSystem) (act : Act MapChoice) : Prop :=
  match act.choice with
  | .start (.write _) => act.pid = producer
  | .start (.read _) => act.pid = consumer
  | .start .reset => False
  | .go => True

section Runs

variable {producer consumer : Nat} {s t : MapSystem} {acts : List (Act MapChoice)}

theorem MapLocal.Ok.of_eq {ring ring' : MapRing} {p : Nat} {here : MapLocal}
    (h : here.Ok producer consumer ring p)
    (hwrite : p = producer → ∀ buf pc, MapWriterOk ring buf pc → MapWriterOk ring' buf pc)
    (hread : p = consumer → ∀ pc, MapReaderOk ring pc → MapReaderOk ring' pc) :
    here.Ok producer consumer ring' p := by
  cases here with
  | write buf pc => exact ⟨h.1, hwrite h.1 buf pc h.2⟩
  | read n pc => exact ⟨h.1, hread h.1 pc h.2⟩
  | reset => exact h
  | idle | written | got | resetDone => trivial

theorem streamInv_step {act : Act MapChoice} (hinv : StreamInv producer consumer s)
    (hstart : MapStarting producer consumer s act) (h : step libkbuf s act = some t) :
    StreamInv producer consumer t := by
  have hhere := hinv.local_ok act.pid
  obtain ⟨ring, next, hmove, rfl⟩ := map_step_move h
  -- What the step leaves to its own process and to everybody else.
  have hstep : StreamOk ring ∧ next.Ok producer consumer ring act.pid ∧
      ∀ p, p ≠ act.pid → (s.locals p).Ok producer consumer ring p := by
    unfold MapStarting at hstart
    generalize s.locals act.pid = here at hmove hhere
    generalize act.choice = choice at hmove hstart
    cases hmove with
    | enter request =>
        refine ⟨hinv.ring, ?_, fun p _ => hinv.local_ok p⟩
        cases request with
        | write | read => exact ⟨hstart, trivial⟩
        | reset => exact hstart
    | write hw =>
        obtain ⟨hok, hnext, hreader⟩ := hw.stream_step hinv.ring hhere.1 hhere.2
        refine ⟨hok, hnext, fun p hp => (hinv.local_ok p).of_eq (fun heq => ?_) fun _ => hreader⟩
        exact absurd (heq.trans hhere.1.symm) hp
    | read hr =>
        obtain ⟨hok, hnext, hwriter⟩ := hr.stream_step hinv.ring hhere.1 hhere.2
        refine ⟨hok, hnext, fun p hp => (hinv.local_ok p).of_eq (fun _ => hwriter) fun heq => ?_⟩
        exact absurd (heq.trans hhere.1.symm) hp
    | reset => exact hhere.elim
  obtain ⟨hok, hnext, hothers⟩ := hstep
  exact ⟨hok, State.forall_put
    (P := fun p (here : MapLocal) => here.Ok producer consumer ring p) hnext hothers⟩

theorem streamInv_boot {cap : Nat} {data : List UInt8} (hcap : cap.isPowerOfTwo)
    (hlt : cap < 2 ^ 64) (hdata : data.length = cap) (index : BitVec 64) :
    StreamInv producer consumer (mapBoot cap index data) where
  ring :=
    { power := hcap
      cap_lt := hlt
      length := hdata
      depth_le := by change depth index index ≤ cap; rw [depth_self]; exact Nat.zero_le _
      stream := by
        change [] = [] ++ window _ cap index.toNat (depth index index)
        rw [depth_self]
        rfl }
  local_ok _ := trivial

end Runs

section Positions

-- The ring position that a producer stores its next byte to.
def MapLocal.storesAt (ring : MapRing) : MapLocal → Option Nat
  | .write _ (.copy head n i) =>
      if i < n then some ((ring.offset head + i) % ring.cap) else none
  | _ => none

-- The ring positions that a consumer is reading.
def MapLocal.reading (ring : MapRing) : MapLocal → List Nat
  | .read _ (.copy tail len _) =>
      (List.range len).map fun i => (ring.offset tail + i) % ring.cap
  | _ => []

variable {producer consumer : Nat} {s : MapSystem} {p position : Nat}

theorem StreamInv.storesAt_eq (hinv : StreamInv producer consumer s)
    (h : (s.locals p).storesAt s.shared = some position) :
    ∃ i, depth s.shared.head s.shared.tail ≤ i ∧ i < s.shared.cap ∧
      position = (s.shared.tail.toNat + i) % s.shared.cap := by
  have hok := hinv.local_ok p
  generalize s.locals p = here at h hok
  unfold MapLocal.storesAt at h
  split at h
  · rename_i head n i
    obtain ⟨-, rfl, hn, hroom, -⟩ := hok
    split at h
    · obtain rfl := Option.some.inj h
      refine ⟨depth s.shared.head s.shared.tail + i, Nat.le_add_right _ _, by omega, ?_⟩
      rw [hinv.ring.offset_add_mod, hinv.ring.head_add_mod]
    · cases h
  · cases h

theorem StreamInv.reading_eq (hinv : StreamInv producer consumer s)
    (h : position ∈ (s.locals p).reading s.shared) :
    ∃ i, i < depth s.shared.head s.shared.tail ∧
      position = (s.shared.tail.toNat + i) % s.shared.cap := by
  have hok := hinv.local_ok p
  generalize s.locals p = here at h hok
  unfold MapLocal.reading at h
  split at h
  · obtain ⟨-, rfl, hlen, -⟩ := hok
    obtain ⟨i, hi, rfl⟩ := List.mem_map.mp h
    have hlt := List.mem_range.mp hi
    exact ⟨i, by omega, hinv.ring.offset_add_mod _ _⟩
  · cases h

theorem StreamInv.stores_free (hinv : StreamInv producer consumer s)
    (h : (s.locals p).storesAt s.shared = some position) {i : Nat}
    (hi : i < depth s.shared.head s.shared.tail) :
    position ≠ (s.shared.tail.toNat + i) % s.shared.cap := by
  obtain ⟨j, hle, hlt, rfl⟩ := hinv.storesAt_eq h
  exact (position_ne _ _ (by omega) (by omega)).symm

end Positions

section Runs

variable {cap : Nat} {index : BitVec 64} {data : List UInt8} {producer consumer : Nat}
  {s : MapSystem} {acts : List (Act MapChoice)}

-- One producer and one consumer on a mapping whose indices start anywhere. The bytes that the
-- writes have taken, by the numbers they returned, are those that the reads have returned and
-- those still in the ring.
theorem mmap_lossless_stream (hcap : cap.isPowerOfTwo) (hlt : cap < 2 ^ 64)
    (hdata : data.length = cap)
    (hreq : Along libkbuf (MapStarting producer consumer) (mapBoot cap index data) acts)
    (hrun : run libkbuf (mapBoot cap index data) acts = some s) :
    s.shared.accepted = (observed libkbuf MapLocal.took (mapBoot cap index data) acts).flatten ∧
      s.shared.returned =
        (observed libkbuf MapLocal.gave (mapBoot cap index data) acts).flatten ∧
      s.shared.accepted = s.shared.returned ++ s.shared.unread ∧
      s.shared.unread.length = (s.shared.head - s.shared.tail).toNat ∧
      (s.shared.head - s.shared.tail).toNat ≤ s.shared.cap ∧
      (∀ p buf head, s.locals p = .write buf (.loadTail head) →
        (head - s.shared.tail).toNat ≤ s.shared.cap) ∧
      ∀ p position, (s.locals p).storesAt s.shared = some position →
        (∀ i, i < (s.shared.head - s.shared.tail).toNat →
          position ≠ (s.shared.tail.toNat + i) % s.shared.cap) ∧
        ∀ q, position ∉ (s.locals q).reading s.shared := by
  have hinv : StreamInv producer consumer s :=
    run_invariant (fun _ _ _ hinv hok h => streamInv_step hinv hok h)
      (streamInv_boot hcap hlt hdata index) hreq hrun
  obtain ⟨haccepted, hreturned⟩ := libkbuf_histories hrun
  refine ⟨haccepted, hreturned, hinv.ring.stream, length_window _ _ _ _, hinv.ring.depth_le,
    fun p buf head hp => ?_,
    fun p position hp => ⟨fun i hi => hinv.stores_free hp hi, fun q hq => ?_⟩⟩
  · have hok := hinv.local_ok p
    rw [hp] at hok
    rw [hok.2]
    exact hinv.ring.depth_le
  · obtain ⟨i, hi, heq⟩ := hinv.reading_eq hq
    exact hinv.stores_free hp hi heq

end Runs

-- Three bytes are offered to a ring of two whose indices are about to wrap, and
-- the read overlaps the second write.
def wrapStream : List (Act MapChoice) :=
  ⟨0, .start (.write [7, 8, 9])⟩ :: List.replicate 5 ⟨0, .go⟩ ++
    ⟨1, .start (.read 1)⟩ :: List.replicate 4 ⟨1, .go⟩ ++
    ⟨0, .start (.write [9])⟩ :: List.replicate 3 ⟨0, .go⟩ ++
    ⟨1, .start (.read 5)⟩ :: List.replicate 3 ⟨1, .go⟩ ++ [⟨0, .go⟩]

theorem wrapStream_allowed (s : MapSystem) :
    Along libkbuf (MapStarting 0 1) s wrapStream := by
  refine along_of_mem fun _ act hact => ?_
  simp only [wrapStream, List.cons_append, List.mem_cons, List.mem_append, List.mem_replicate,
    List.not_mem_nil, or_false] at hact
  rcases hact with rfl | ((((⟨-, rfl⟩ | rfl | ⟨-, rfl⟩) | rfl | ⟨-, rfl⟩) | rfl | ⟨-, rfl⟩) | rfl)
  all_goals trivial

theorem mmap_lossless_stream_wrap :
    ∃ s, run libkbuf (mapBoot 2 0xFFFFFFFFFFFFFFFF [0, 0]) wrapStream = some s ∧
      s.shared.head = 2 ∧
      observed libkbuf MapLocal.took (mapBoot 2 0xFFFFFFFFFFFFFFFF [0, 0]) wrapStream =
        [[7, 8], [9]] ∧
      observed libkbuf MapLocal.gave (mapBoot 2 0xFFFFFFFFFFFFFFFF [0, 0]) wrapStream = [[7]] ∧
      [7, 8, 9] = [7] ++ s.shared.unread := by
  obtain ⟨s, hrun, hhead⟩ := Option.map_eq_some_iff.mp
    (show (run libkbuf (mapBoot 2 0xFFFFFFFFFFFFFFFF [0, 0]) wrapStream).map
      (fun s => s.shared.head) = some 2 from rfl)
  obtain ⟨haccepted, hreturned, hstream, -⟩ :=
    mmap_lossless_stream ⟨1, rfl⟩ (by decide) rfl (wrapStream_allowed _) hrun
  rw [haccepted, hreturned] at hstream
  exact ⟨s, hrun, hhead, rfl, rfl, hstream⟩

end Kbuf
