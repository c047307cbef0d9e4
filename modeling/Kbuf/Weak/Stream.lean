import Kbuf.Lib.Channel
import Kbuf.Lib.FreeRunning
import Kbuf.Weak.Mmap

namespace Kbuf

open Interleaving ReleaseAcquire Handoff Circular FreeRunning

section Definitions

-- The producer publishes `head`, the consumer `tail`. An index is a position modulo 2^64.
structure WeakOk (producer consumer : Nat) (p c : Party MapIndex) (ring : WeakRing) : Prop where
  power : ring.cap.isPowerOfTwo
  cap_lt : ring.cap < 2 ^ 64
  producer_thread : p.thread = producer
  consumer_thread : c.thread = consumer
  head : p.index = .head
  tail : c.index = .tail
  channel : Channel (BitVec.ofNat 64) ring.cap p c ring.mem
  stream : ring.accepted = ring.returned ++ pending ring.cap p c ring.mem

-- What the producer knows at each point.
def WeakWriterOk (p c : Party MapIndex) (ring : WeakRing) (buf : List UInt8) : MapWritePc → Prop
  | .loadHead => True
  | .loadTail head => head = BitVec.ofNat 64 (p.last ring.mem)
  | .copy head n i =>
      head = BitVec.ofNat 64 (p.last ring.mem) ∧ n ≤ buf.length ∧
        p.last ring.mem + n ≤ c.pos p.got + ring.cap ∧ i ≤ n ∧
        ∀ j, j < i → ring.mem.cell ((p.last ring.mem + j) % ring.cap) = buf.getD j 0

-- What the consumer knows at each point.
def WeakReaderOk (p c : Party MapIndex) (ring : WeakRing) : MapReadPc → Prop
  | .loadTail => True
  | .loadHead tail => tail = BitVec.ofNat 64 (c.last ring.mem)
  | .copy tail len out =>
      tail = BitVec.ofNat 64 (c.last ring.mem) ∧ c.last ring.mem + len ≤ p.pos c.got ∧
        out.length ≤ len ∧ out = window ring.mem.cell ring.cap (c.last ring.mem) out.length

def WeakLocalOk (producer consumer : Nat) (p c : Party MapIndex) (ring : WeakRing) (q : Nat) :
    MapLocal → Prop
  | .write buf pc => q = producer ∧ WeakWriterOk p c ring buf pc
  | .read _ pc => q = consumer ∧ WeakReaderOk p c ring pc
  | .reset _ => False
  | .idle | .written _ | .got _ | .resetDone => True

structure WeakInv (producer consumer : Nat) (s : WeakMapSystem) : Prop where
  parties : ∃ p c, WeakOk producer consumer p c s.shared ∧
    ∀ q, WeakLocalOk producer consumer p c s.shared q (s.locals q)

-- One thread writes, another one reads, and nobody resets the ring.
def WeakStarting (producer consumer : Nat) (_ : WeakMapSystem) (act : Act WeakChoice) : Prop :=
  match act.choice with
  | .start (.write _) => act.pid = producer
  | .start (.read _) => act.pid = consumer
  | .start .reset => False
  | .load _ | .go => True

-- The bytes between the last stores to `tail` and `head`, oldest first.
def WeakRing.unread (ring : WeakRing) : List UInt8 :=
  window ring.mem.cell ring.cap (ring.newest .tail).toNat
    (depth (ring.newest .head) (ring.newest .tail))

end Definitions

section Indices

variable {producer consumer : Nat} {p c : Party MapIndex} {ring : WeakRing}

theorem WeakOk.dvd (h : WeakOk producer consumer p c ring) : ring.cap ∣ 2 ^ 64 :=
  dvd_two_pow h.power h.cap_lt

theorem WeakOk.position_eq (h : WeakOk producer consumer p c ring) (n i : Nat) :
    ring.position (BitVec.ofNat 64 n) i = (n + i) % ring.cap := by
  rw [WeakRing.position, mask_eq_mod h.power h.cap_lt, ofNat_mod h.dvd, Nat.mod_add_mod]

-- Free space, however old the loaded `tail` is.
theorem WeakOk.space_eq (h : WeakOk producer consumer p c ring) {head tail : Nat}
    (hle : tail ≤ head) (hroom : head ≤ tail + ring.cap) :
    (BitVec.ofNat 64 ring.cap - (BitVec.ofNat 64 head - BitVec.ofNat 64 tail)).toNat =
      ring.cap - (head - tail) := by
  have hlt := h.cap_lt
  have hdepth : (BitVec.ofNat 64 head - BitVec.ofNat 64 tail).toNat = head - tail :=
    depth_ofNat hle (by omega)
  have hcap : (BitVec.ofNat 64 ring.cap).toNat = ring.cap := by
    rw [BitVec.toNat_ofNat, Nat.mod_eq_of_lt hlt]
  rw [BitVec.toNat_sub_of_le, hcap, hdepth]
  rw [BitVec.le_def, hcap, hdepth]
  omega

theorem WeakOk.avail_eq (h : WeakOk producer consumer p c ring) {head tail : Nat}
    (hle : tail ≤ head) (hroom : head ≤ tail + ring.cap) :
    (BitVec.ofNat 64 head - BitVec.ofNat 64 tail).toNat = head - tail := by
  have hlt := h.cap_lt
  exact depth_ofNat hle (by omega)

end Indices

section Frames

variable {producer consumer : Nat} {p c : Party MapIndex} {ring : WeakRing}

-- A load moves what its thread has seen and nothing else.
theorem WeakOk.load (h : WeakOk producer consumer p c ring) {order : LoadOrder} {me i j k : Nat}
    {l : MapIndex} {value : BitVec 64} {mem : Memory MapIndex Nat (BitVec 64) UInt8}
    (hload : ring.mem.load order me l i = some (value, mem))
    (hchannel : Channel (BitVec.ofNat 64) ring.cap { p with got := j } { c with got := k } mem) :
    WeakOk producer consumer { p with got := j } { c with got := k }
      { ring with mem := mem } := by
  obtain ⟨message, -, -, -, rfl⟩ := load_eq_some hload
  exact { h with channel := hchannel, stream := h.stream }

theorem WeakReaderOk.load {order : LoadOrder} {me i j : Nat} {l : MapIndex} {value : BitVec 64}
    {mem : Memory MapIndex Nat (BitVec 64) UInt8} {pc : MapReadPc}
    (hload : ring.mem.load order me l i = some (value, mem)) (h : WeakReaderOk p c ring pc) :
    WeakReaderOk { p with got := j } c { ring with mem := mem } pc := by
  obtain ⟨message, -, -, -, rfl⟩ := load_eq_some hload
  cases pc <;> exact h

theorem WeakWriterOk.load {order : LoadOrder} {me i k : Nat} {l : MapIndex} {value : BitVec 64}
    {mem : Memory MapIndex Nat (BitVec 64) UInt8} {buf : List UInt8} {pc : MapWritePc}
    (hload : ring.mem.load order me l i = some (value, mem)) (h : WeakWriterOk p c ring buf pc) :
    WeakWriterOk p { c with got := k } { ring with mem := mem } buf pc := by
  obtain ⟨message, -, -, -, rfl⟩ := load_eq_some hload
  cases pc <;> exact h

theorem WeakOk.write (h : WeakOk producer consumer p c ring) {q : Nat} (value : UInt8)
    (hlow : p.last ring.mem ≤ q) (hhigh : q < c.pos p.got + ring.cap) :
    WeakOk producer consumer p c
      { ring with mem := ring.mem.writeCell p.thread (q % ring.cap) value } where
  power := h.power
  cap_lt := h.cap_lt
  producer_thread := h.producer_thread
  consumer_thread := h.consumer_thread
  head := h.head
  tail := h.tail
  channel := h.channel.write hlow hhigh value
  stream := by
    have hsame := h.channel.window_writeCell p.thread value hlow hhigh (Nat.le_refl _)
    exact h.stream.trans (congrArg (ring.returned ++ ·) hsame.symm)

theorem WeakOk.read (h : WeakOk producer consumer p c ring) {q : Nat}
    (hlow : c.last ring.mem ≤ q) (hhigh : q < p.pos c.got) :
    WeakOk producer consumer p c
      { ring with mem := ring.mem.touch c.thread (q % ring.cap) .read } where
  power := h.power
  cap_lt := h.cap_lt
  producer_thread := h.producer_thread
  consumer_thread := h.consumer_thread
  head := h.head
  tail := h.tail
  channel := h.channel.touch hlow hhigh .read
  stream := h.stream

-- Publishing `n` written bytes appends them to the unread ones.
theorem WeakOk.publish (h : WeakOk producer consumer p c ring) {n : Nat} {bytes : List UInt8}
    (hroom : p.last ring.mem + n ≤ c.pos p.got + ring.cap)
    (hbytes : window ring.mem.cell ring.cap (p.last ring.mem) n = bytes) :
    WeakOk producer consumer (p.advance ring.mem (p.last ring.mem + n)) c
      { ring with
        mem := ring.mem.store .release p.thread p.index (BitVec.ofNat 64 (p.last ring.mem + n))
        accepted := ring.accepted ++ bytes } where
  power := h.power
  cap_lt := h.cap_lt
  producer_thread := h.producer_thread
  consumer_thread := h.consumer_thread
  head := h.head
  tail := h.tail
  channel := h.channel.publish_head (Nat.le_add_right _ _) hroom
  stream := by
    rw [h.channel.pending_publish_producer _ (Nat.le_add_right _ _), Nat.add_sub_cancel_left,
      hbytes, ← List.append_assoc, h.stream]

-- Releasing the oldest `n` bytes hands them over.
theorem WeakOk.release (h : WeakOk producer consumer p c ring) {n : Nat}
    (hn : c.last ring.mem + n ≤ p.pos c.got) :
    WeakOk producer consumer p (c.advance ring.mem (c.last ring.mem + n))
      { ring with
        mem := ring.mem.store .release c.thread c.index (BitVec.ofNat 64 (c.last ring.mem + n))
        returned := ring.returned ++
          window ring.mem.cell ring.cap (c.last ring.mem) n } where
  power := h.power
  cap_lt := h.cap_lt
  producer_thread := h.producer_thread
  consumer_thread := h.consumer_thread
  head := h.head
  tail := h.tail
  channel := h.channel.publish_tail (Nat.le_add_right _ _) hn
  stream := by
    have hlast := h.channel.producer.pos_le_last h.channel.consumer.got_lt
    have hsplit := h.channel.pending_publish (BitVec.ofNat 64 (c.last ring.mem + n))
      (Nat.le_add_right _ _) (hn.trans hlast)
    rw [Nat.add_sub_cancel_left] at hsplit
    rw [List.append_assoc, ← hsplit]
    exact h.stream

-- A byte written behind `head` is seen by nobody yet.
theorem WeakReaderOk.write {q : Nat} {value : UInt8} {pc : MapReadPc}
    (hring : Ring ring.cap p c ring.mem) (hlow : p.last ring.mem ≤ q)
    (hhigh : q < c.pos p.got + ring.cap) (h : WeakReaderOk p c ring pc) :
    WeakReaderOk p c
      { ring with mem := ring.mem.writeCell p.thread (q % ring.cap) value } pc := by
  cases pc with
  | loadTail => exact h
  | loadHead tail => exact h
  | copy tail len out =>
      obtain ⟨htail, hlen, hout, hbytes⟩ := h
      have hlast := hring.producer.pos_le_last hring.consumer.got_lt
      refine ⟨htail, hlen, hout, hbytes.trans ?_⟩
      exact (hring.window_writeCell p.thread value hlow hhigh (by omega)).symm

theorem WeakReaderOk.publish {n : Nat} {value : BitVec 64} {accepted : List UInt8}
    {pc : MapReadPc} (hring : Ring ring.cap p c ring.mem) (h : WeakReaderOk p c ring pc) :
    WeakReaderOk (p.advance ring.mem n) c
      { ring with
        mem := ring.mem.store .release p.thread p.index value
        accepted := accepted } pc := by
  have hlast := last_store_of_ne (m := ring.mem) .release p.thread value hring.indices.symm
  have hpos := advance_pos n hring.consumer.got_lt
  cases pc with
  | loadTail => trivial
  | loadHead tail =>
      change tail = BitVec.ofNat 64 (c.last _)
      rw [hlast]
      exact h
  | copy tail len out =>
      simp only [WeakReaderOk, hlast, hpos]
      exact h

theorem WeakWriterOk.release {n : Nat} {value : BitVec 64} {returned buf : List UInt8}
    {pc : MapWritePc} (hring : Ring ring.cap p c ring.mem) (h : WeakWriterOk p c ring buf pc) :
    WeakWriterOk p (c.advance ring.mem n)
      { ring with
        mem := ring.mem.store .release c.thread c.index value
        returned := returned } buf pc := by
  have hlast := last_store_of_ne (m := ring.mem) .release c.thread value hring.indices
  have hpos := advance_pos n hring.producer.got_lt
  cases pc with
  | loadHead => trivial
  | loadTail head =>
      change head = BitVec.ofNat 64 (p.last _)
      rw [hlast]
      exact h
  | copy head len i =>
      simp only [WeakWriterOk, hlast, hpos]
      exact h

end Frames

section Steps

variable {producer consumer me : Nat} {p c : Party MapIndex} {ring ring' : WeakRing}
  {next : MapLocal}

theorem WeakWriteMove.stream_step {buf : List UInt8} {pc : MapWritePc}
    (hok : WeakOk producer consumer p c ring) (hme : me = producer)
    (hpc : WeakWriterOk p c ring buf pc) (h : WeakWriteMove me buf ring pc ring' next) :
    ∃ p', WeakOk producer consumer p' c ring' ∧
      WeakLocalOk producer consumer p' c ring' me next ∧
      ∀ pc, WeakReaderOk p c ring pc → WeakReaderOk p' c ring' pc := by
  have hring := hok.channel
  obtain rfl : me = p.thread := hme.trans hok.producer_thread.symm
  cases h with
  | @loadHead i head mem hload =>
      rw [← hok.head] at hload
      obtain ⟨hchannel, rfl⟩ := hring.load_head hload
      refine ⟨p, hok.load hload hchannel, ⟨hme, ?_⟩, fun pc hreader => hreader.load hload⟩
      simp only [WeakWriterOk, last_eq (load_history hload)]
  | @loadTail i head tail mem n hload hn =>
      rw [← hok.tail] at hload
      obtain ⟨hchannel, rfl, hgot, htail⟩ := hring.acquire_tail hload
      have hle := hring.last_le
      have hroom := hring.head_le
      refine ⟨{ p with got := i }, hok.load hload hchannel, ?_,
        fun pc hreader => hreader.load hload⟩
      obtain ⟨-, -, -, -, rfl⟩ := load_eq_some hload
      obtain rfl := hpc
      rw [hok.space_eq (by omega) (by omega)] at hn
      by_cases hzero : n = 0
      · rw [if_pos hzero]
        trivial
      · rw [if_neg hzero]
        refine ⟨hme, rfl, by omega, ?_, Nat.zero_le _, fun j hj => by omega⟩
        change p.last ring.mem + n ≤ c.pos i + ring.cap
        omega
  | @byte head n i hi =>
      obtain ⟨rfl, hn, hroom, -, hbytes⟩ := hpc
      rw [hok.position_eq]
      have hlow := Nat.le_add_right (p.last ring.mem) i
      have hhigh : p.last ring.mem + i < c.pos p.got + ring.cap := by omega
      refine ⟨p, hok.write _ hlow hhigh, ⟨hme, rfl, hn, hroom, hi, fun j hj => ?_⟩,
        fun pc hreader => hreader.write hring.toRing hlow hhigh⟩
      by_cases hij : j = i
      · subst hij
        exact Function.update_self ..
      · have hle := hring.last_le
        have htail := hring.consumer.pos_le_last hring.producer.got_lt
        have hne := position_ne ring.cap (p.last ring.mem) (i := j) (j := i) (by omega) (by omega)
        exact (Function.update_of_ne hne _ _).trans (hbytes j (by omega))
  | @publish head n i hi =>
      obtain ⟨rfl, hn, hroom, hle, hbytes⟩ := hpc
      have htake : window ring.mem.cell ring.cap (p.last ring.mem) n = buf.take n := by
        apply window_eq_take
        intro j hj
        have hlt : j < buf.length := by omega
        rw [hbytes j (by omega), List.getElem?_eq_getElem hlt]
        simp [List.getD_eq_getElem?_getD, hlt]
      rw [← hok.head, ← BitVec.ofNat_add]
      exact ⟨_, hok.publish hroom htake, trivial, fun pc hreader => hreader.publish hring.toRing⟩

theorem WeakReadMove.stream_step {n : Nat} {pc : MapReadPc}
    (hok : WeakOk producer consumer p c ring) (hme : me = consumer)
    (hpc : WeakReaderOk p c ring pc) (h : WeakReadMove me n ring pc ring' next) :
    ∃ c', WeakOk producer consumer p c' ring' ∧
      WeakLocalOk producer consumer p c' ring' me next ∧
      ∀ buf pc, WeakWriterOk p c ring buf pc → WeakWriterOk p c' ring' buf pc := by
  have hring := hok.channel
  obtain rfl : me = c.thread := hme.trans hok.consumer_thread.symm
  cases h with
  | @loadTail i tail mem hload =>
      rw [← hok.tail] at hload
      obtain ⟨hchannel, rfl⟩ := hring.load_tail hload
      refine ⟨c, hok.load hload hchannel, ⟨hme, ?_⟩, fun buf pc hwriter => hwriter.load hload⟩
      simp only [WeakReaderOk, last_eq (load_history hload)]
  | @loadHead i head tail mem len hload hlen =>
      rw [← hok.head] at hload
      obtain ⟨hchannel, rfl, hgot, hhead⟩ := hring.acquire_head hload
      have hle := hring.tail_le
      have hroom := hring.last_le_add
      refine ⟨{ c with got := i }, hok.load hload hchannel, ?_,
        fun buf pc hwriter => hwriter.load hload⟩
      obtain ⟨-, -, -, -, rfl⟩ := load_eq_some hload
      obtain rfl := hpc
      rw [hok.avail_eq (by omega) (by omega)] at hlen
      by_cases hzero : len = 0
      · rw [if_pos hzero]
        trivial
      · rw [if_neg hzero]
        refine ⟨hme, rfl, ?_, Nat.zero_le _, rfl⟩
        change c.last ring.mem + len ≤ p.pos i
        omega
  | @byte tail len out hout =>
      obtain ⟨rfl, hlen, -, hbytes⟩ := hpc
      rw [hok.position_eq]
      have hlow := Nat.le_add_right (c.last ring.mem) out.length
      refine ⟨c, hok.read hlow (by omega), ⟨hme, rfl, hlen, ?_, ?_⟩, fun buf pc hwriter => ?_⟩
      · rw [List.length_append]
        exact hout
      · rw [List.length_append, List.length_singleton, window_succ]
        exact congrArg (· ++ [_]) hbytes
      · cases pc <;> exact hwriter
  | @publish tail len out hout =>
      obtain ⟨rfl, hlen, hle, hbytes⟩ := hpc
      obtain rfl : out.length = len := Nat.le_antisymm hle hout
      have hrelease := hok.release hlen
      rw [← hbytes] at hrelease
      rw [← hok.tail, ← BitVec.ofNat_add]
      exact ⟨_, hrelease, trivial, fun buf pc hwriter => hwriter.release hring.toRing⟩

end Steps

section Invariant

variable {producer consumer : Nat} {s t : WeakMapSystem} {acts : List (Act WeakChoice)}

theorem WeakLocalOk.of_eq {p c p' c' : Party MapIndex} {ring ring' : WeakRing} {q : Nat}
    {here : MapLocal} (h : WeakLocalOk producer consumer p c ring q here)
    (hwrite : q = producer → ∀ buf pc, WeakWriterOk p c ring buf pc →
      WeakWriterOk p' c' ring' buf pc)
    (hread : q = consumer → ∀ pc, WeakReaderOk p c ring pc → WeakReaderOk p' c' ring' pc) :
    WeakLocalOk producer consumer p' c' ring' q here := by
  cases here with
  | write buf pc => exact ⟨h.1, hwrite h.1 buf pc h.2⟩
  | read n pc => exact ⟨h.1, hread h.1 pc h.2⟩
  | reset => exact h
  | idle | written | got | resetDone => trivial

theorem weakInv_step {act : Act WeakChoice} (hinv : WeakInv producer consumer s)
    (hstart : WeakStarting producer consumer s act) (h : step libkbufWeak s act = some t) :
    WeakInv producer consumer t := by
  obtain ⟨p, c, hok, hlocal⟩ := hinv.parties
  have hhere := hlocal act.pid
  obtain ⟨ring, next, hmove, rfl⟩ := weak_step_move h
  -- What the step leaves to its own thread and to everybody else.
  have hstep : ∃ p' c', WeakOk producer consumer p' c' ring ∧
      WeakLocalOk producer consumer p' c' ring act.pid next ∧
      ∀ q, q ≠ act.pid → WeakLocalOk producer consumer p' c' ring q (s.locals q) := by
    unfold WeakStarting at hstart
    generalize s.locals act.pid = here at hmove hhere
    generalize act.choice = choice at hmove hstart
    cases hmove with
    | enter request =>
        refine ⟨p, c, hok, ?_, fun q _ => hlocal q⟩
        cases request with
        | write | read => exact ⟨hstart, trivial⟩
        | reset => exact hstart
    | write hw =>
        obtain ⟨p', hok', hnext, hreader⟩ := hw.stream_step hok hhere.1 hhere.2
        refine ⟨p', c, hok', hnext, fun q hq => (hlocal q).of_eq (fun heq => ?_) fun _ => hreader⟩
        exact absurd (heq.trans hhere.1.symm) hq
    | read hr =>
        obtain ⟨c', hok', hnext, hwriter⟩ := hr.stream_step hok hhere.1 hhere.2
        refine ⟨p, c', hok', hnext, fun q hq => (hlocal q).of_eq (fun _ => hwriter) fun heq => ?_⟩
        exact absurd (heq.trans hhere.1.symm) hq
    | reset => exact hhere.elim
  obtain ⟨p', c', hok', hnext, hothers⟩ := hstep
  exact ⟨p', c', hok', State.forall_put
    (P := fun q here => WeakLocalOk producer consumer p' c' ring q here) hnext hothers⟩

theorem weakInv_boot {cap : Nat} (hcap : cap.isPowerOfTwo) (hlt : cap < 2 ^ 64)
    (hne : producer ≠ consumer) (index : BitVec 64) (data : Nat → UInt8) :
    WeakInv producer consumer (weakBoot cap index data) := by
  have hindex : BitVec.ofNat 64 index.toNat = index := by simp
  have hchannel : Channel (BitVec.ofNat 64) cap _ _ (Memory.fresh _ data) :=
    Channel.fresh cap hne (show MapIndex.head ≠ MapIndex.tail by decide) index.toNat data
  rw [hindex] at hchannel
  refine ⟨_, _, ⟨hcap, hlt, rfl, rfl, rfl, rfl, hchannel, ?_⟩, fun _ => trivial⟩
  simp [weakBoot, pending, Party.last]

theorem newest_eq {p c : Party MapIndex} {ring : WeakRing} (hknows : Knows p c ring.mem)
    (hlabels : Labels (BitVec.ofNat 64) p ring.mem) :
    ring.newest p.index = BitVec.ofNat 64 (p.last ring.mem) := by
  have hown := hknows.own
  have hlt : (ring.mem.history p.index).length - 1 < (ring.mem.history p.index).length := by omega
  have hvalue := hlabels _ _ (List.getElem?_eq_getElem hlt)
  rw [WeakRing.newest, List.getLast?_eq_getElem?, List.getElem?_eq_getElem hlt]
  exact hvalue

theorem WeakOk.unread_eq {p c : Party MapIndex} {ring : WeakRing}
    (h : WeakOk producer consumer p c ring) :
    ring.unread = pending ring.cap p c ring.mem := by
  have hlt := h.cap_lt
  have hle := h.channel.last_le
  have hroom := h.channel.last_le_add
  have hhead := newest_eq h.channel.producer h.channel.head_label
  have htail := newest_eq h.channel.consumer h.channel.tail_label
  rw [h.head] at hhead
  rw [h.tail] at htail
  rw [WeakRing.unread, hhead, htail, depth_ofNat hle (by omega)]
  exact window_start_congr _ _ (ofNat_mod h.dvd _)

end Invariant

section Runs

variable {cap producer consumer : Nat} {index : BitVec 64} {data : Nat → UInt8}
  {s : WeakMapSystem} {acts : List (Act WeakChoice)}

-- Whatever the loads of the other side's index return, the two threads never touch a byte
-- at the same time, and the reads return the bytes that the writes have taken, in order.
theorem weak_stream (hcap : cap.isPowerOfTwo) (hlt : cap < 2 ^ 64) (hne : producer ≠ consumer)
    (hreq : Along libkbufWeak (WeakStarting producer consumer) (weakBoot cap index data) acts)
    (hrun : run libkbufWeak (weakBoot cap index data) acts = some s) :
    s.shared.mem.raced = false ∧
      s.shared.accepted =
        (observed libkbufWeak MapLocal.took (weakBoot cap index data) acts).flatten ∧
      s.shared.returned =
        (observed libkbufWeak MapLocal.gave (weakBoot cap index data) acts).flatten ∧
      s.shared.accepted = s.shared.returned ++ s.shared.unread ∧
      s.shared.unread.length ≤ s.shared.cap := by
  have hinv : WeakInv producer consumer s :=
    run_invariant (fun _ _ _ hinv hok h => weakInv_step hinv hok h)
      (weakInv_boot hcap hlt hne index data) hreq hrun
  obtain ⟨p, c, hok, -⟩ := hinv.parties
  obtain ⟨haccepted, hreturned⟩ := libkbufWeak_histories hrun
  rw [hok.unread_eq]
  exact ⟨hok.channel.clean, haccepted, hreturned, hok.stream, hok.channel.length_pending_le⟩

end Runs

-- The producer finds the ring full while the consumer finds it empty: each has
-- published an index that the other one does not see yet.
def staleStream : List (Act WeakChoice) :=
  [⟨0, .start (.write [7])⟩, ⟨0, .load 0⟩, ⟨0, .load 0⟩, ⟨0, .go⟩, ⟨0, .go⟩,
    ⟨1, .start (.read 1)⟩, ⟨1, .load 0⟩, ⟨1, .load 1⟩, ⟨1, .go⟩,
    ⟨0, .start (.write [8])⟩, ⟨0, .load 1⟩, ⟨0, .load 0⟩, ⟨0, .go⟩, ⟨0, .go⟩, ⟨1, .go⟩,
    ⟨0, .start (.write [9])⟩, ⟨0, .load 2⟩, ⟨0, .load 0⟩,
    ⟨1, .start (.read 5)⟩, ⟨1, .load 1⟩, ⟨1, .load 1⟩]

theorem staleStream_allowed (s : WeakMapSystem) :
    Along libkbufWeak (WeakStarting 0 1) s staleStream := by
  apply along_of_mem
  intro s
  simp [staleStream, WeakStarting]

theorem weak_stream_stale :
    ∃ s, run libkbufWeak (weakBoot 2 0xFFFFFFFFFFFFFFFF fun _ => 0) staleStream = some s ∧
      s.locals 0 = .written 0 ∧ s.locals 1 = .got [] ∧ s.shared.mem.raced = false ∧
      observed libkbufWeak MapLocal.took (weakBoot 2 0xFFFFFFFFFFFFFFFF fun _ => 0) staleStream =
        [[7], [8], []] ∧
      observed libkbufWeak MapLocal.gave (weakBoot 2 0xFFFFFFFFFFFFFFFF fun _ => 0) staleStream =
        [[7], []] ∧
      [7, 8] = [7] ++ s.shared.unread := by
  obtain ⟨s, hrun, hend⟩ := Option.map_eq_some_iff.mp
    (show (run libkbufWeak (weakBoot 2 0xFFFFFFFFFFFFFFFF fun _ => 0) staleStream).map
      (fun s => (s.locals 0, s.locals 1)) = some (.written 0, .got []) from rfl)
  obtain ⟨hwriter, hreader⟩ := Prod.mk.inj hend
  obtain ⟨hclean, haccepted, hreturned, hstream, -⟩ :=
    weak_stream ⟨1, rfl⟩ (by decide) (by decide) (staleStream_allowed _) hrun
  rw [haccepted, hreturned] at hstream
  exact ⟨s, hrun, hwriter, hreader, hclean, rfl, rfl, hstream⟩

end Kbuf
