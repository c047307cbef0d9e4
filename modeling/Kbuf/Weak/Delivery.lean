import Kbuf.Lib.Channel
import Kbuf.Spsc.Delivery
import Kbuf.Weak.Spsc

namespace Kbuf

open Interleaving ReleaseAcquire Handoff Circular FreeRunning Delivery

section Definitions

-- A slot as kbuf_alloc_slots made it, with no more bytes in use than it has.
def Slot.Fits (slot : Slot) (bufferSize : Nat) : Prop :=
  slot.data.length = bufferSize ∧ slot.len ≤ bufferSize

structure WeakSpscOk (producer consumer peak : Nat) (p c : Party SpscIndex) (dev : WeakDev) :
    Prop where
  power : dev.numBuffers.isPowerOfTwo
  num_lt : dev.numBuffers < 2 ^ 32
  producer_thread : p.thread = producer
  consumer_thread : c.thread = consumer
  prod : p.index = .prod
  cons : c.index = .cons
  channel : Channel (BitVec.ofNat 32) dev.numBuffers p c dev.mem
  fits : ∀ k, k < dev.numBuffers → (dev.mem.cell k).Fits dev.bufferSize
  delivered : Delivered (fun message got => got.2 = message.take got.1) dev.sent dev.received
    ((pending dev.numBuffers p c dev.mem).map Slot.message)
  peak_le : dev.peakCount ≤ max peak dev.numBuffers
  traced_le : ∀ occ ∈ dev.traced, occ.toNat ≤ dev.numBuffers

-- The slot that each side uses next.
def WeakDev.next (dev : WeakDev) (party : Party SpscIndex) : Slot :=
  dev.mem.cell (party.last dev.mem % dev.numBuffers)

-- The producer has found a free slot, which it may still hold to be full.
structure WeakFilling (p c : Party SpscIndex) (dev : WeakDev) (u : UserWrite) : Prop where
  fits : u.count ≤ dev.bufferSize
  room : p.last dev.mem < c.pos p.got + dev.numBuffers

-- What the producer knows at each point.
def WeakProducerOk (p c : Party SpscIndex) (dev : WeakDev) (u : UserWrite) : WeakWritePc → Prop
  | .clamp => True
  | .full | .sleep | .test | .asleep => u.count ≤ dev.bufferSize
  | .fullCons prod | .testCons prod =>
      u.count ≤ dev.bufferSize ∧ prod = BitVec.ofNat 32 (p.last dev.mem)
  | .produce => WeakFilling p c dev u
  | .copy prod i =>
      WeakFilling p c dev u ∧ prod = BitVec.ofNat 32 (p.last dev.mem) ∧ i ≤ u.count ∧
        ∀ j, j < i → (dev.next p).data[j]? = some (u.ubuf.getD j 0)
  | .setLen prod =>
      WeakFilling p c dev u ∧ prod = BitVec.ofNat 32 (p.last dev.mem) ∧
        (dev.next p).data.take u.count = u.ubuf.take u.count
  | .publish prod =>
      WeakFilling p c dev u ∧ prod = BitVec.ofNat 32 (p.last dev.mem) ∧
        (dev.next p).message = u.ubuf.take u.count
  | .bytes prod | .msgs prod | .occ prod => prod + 1 = BitVec.ofNat 32 (p.last dev.mem)
  | .peak occ => occ.toNat ≤ dev.numBuffers

-- What the consumer knows at each point.
def WeakConsumerOk (p c : Party SpscIndex) (dev : WeakDev) (u : UserRead) : WeakReadPc → Prop
  | .empty | .sleep | .test | .testCons _ | .asleep => True
  | .emptyCons prod => prod = BitVec.ofNat 32 (p.pos c.got)
  | .consume => c.last dev.mem < p.pos c.got
  | .len cons => c.last dev.mem < p.pos c.got ∧ cons = BitVec.ofNat 32 (c.last dev.mem)
  | .copy f =>
      c.last dev.mem < p.pos c.got ∧ f.cons = BitVec.ofNat 32 (c.last dev.mem) ∧
        f.len = min u.count (dev.next c).len ∧ f.out.length ≤ f.len ∧
        f.out = (dev.next c).data.take f.out.length
  | .publish f =>
      c.last dev.mem < p.pos c.got ∧ f.cons = BitVec.ofNat 32 (c.last dev.mem) ∧
        f.out = (dev.next c).message.take u.count
  | .bytes f | .msgs f | .trace f => f.cons + 1 = BitVec.ofNat 32 (c.last dev.mem)

def WeakLocal.Ok (producer consumer : Nat) (p c : Party SpscIndex) (dev : WeakDev) (q : Nat) :
    WeakLocal → Prop
  | .read _ u pc => q = consumer ∧ WeakConsumerOk p c dev u pc
  | .write _ u pc => q = producer ∧ WeakProducerOk p c dev u pc
  | .idle | .done _ => True

structure WeakSpscInv (producer consumer peak : Nat) (s : WeakSpscSystem) : Prop where
  parties : ∃ p c, WeakSpscOk producer consumer peak p c s.shared ∧
    ∀ q, (s.locals q).Ok producer consumer p c s.shared q

-- One thread writes and another one reads.
def WeakPair (producer consumer : Nat) (_ : WeakSpscSystem) (act : Act WeakSpscChoice) : Prop :=
  match act.choice with
  | .read .. => act.pid = consumer
  | .write .. => act.pid = producer
  | .load _ | .go | .signal => True

end Definitions

section Frames

variable {p c p' c' : Party SpscIndex} {dev dev' : WeakDev}

theorem WeakProducerOk.frame {u : UserWrite} {pc : WeakWritePc} (h : WeakProducerOk p c dev u pc)
    (hnum : dev'.numBuffers = dev.numBuffers) (hsize : dev'.bufferSize = dev.bufferSize)
    (hlast : p'.last dev'.mem = p.last dev.mem) (hpos : c'.pos p'.got = c.pos p.got)
    (hslot : dev'.next p' = dev.next p) : WeakProducerOk p' c' dev' u pc := by
  have hfill (hf : WeakFilling p c dev u) : WeakFilling p' c' dev' u := by
    refine ⟨?_, ?_⟩
    · rw [hsize]
      exact hf.fits
    · rw [hlast, hpos, hnum]
      exact hf.room
  cases pc with
  | clamp => trivial
  | full | sleep | test | asleep => exact h.trans hsize.ge
  | fullCons prod | testCons prod =>
      simp only [WeakProducerOk, hsize, hlast]
      exact h
  | produce => exact hfill h
  | copy prod i =>
      simp only [WeakProducerOk, hlast, hslot]
      exact ⟨hfill h.1, h.2⟩
  | setLen prod | publish prod =>
      simp only [WeakProducerOk, hlast, hslot]
      exact ⟨hfill h.1, h.2⟩
  | bytes prod | msgs prod | occ prod =>
      simp only [WeakProducerOk, hlast]
      exact h
  | peak occ => exact h.trans hnum.ge

theorem WeakConsumerOk.frame {u : UserRead} {pc : WeakReadPc} (h : WeakConsumerOk p c dev u pc)
    (hlast : c'.last dev'.mem = c.last dev.mem) (hpos : p'.pos c'.got = p.pos c.got)
    (hslot : c.last dev.mem < p.pos c.got → dev'.next c' = dev.next c) :
    WeakConsumerOk p' c' dev' u pc := by
  cases pc with
  | empty | sleep | test | testCons | asleep => trivial
  | emptyCons prod => exact h.trans (congrArg (BitVec.ofNat 32) hpos.symm)
  | consume | len cons =>
      simp only [WeakConsumerOk, hlast, hpos]
      exact h
  | copy f | publish f =>
      simp only [WeakConsumerOk, hlast, hpos, hslot h.1]
      exact h
  | bytes f | msgs f | trace f =>
      simp only [WeakConsumerOk, hlast]
      exact h

end Frames

section Device

variable {producer consumer peak : Nat} {p c : Party SpscIndex} {dev : WeakDev}

theorem WeakSpscOk.num_pos (h : WeakSpscOk producer consumer peak p c dev) : 0 < dev.numBuffers :=
  Nat.pos_of_isPowerOfTwo h.power

theorem WeakSpscOk.masked_eq (h : WeakSpscOk producer consumer peak p c dev) (n : Nat) :
    dev.masked (BitVec.ofNat 32 n) = n % dev.numBuffers := by
  rw [WeakDev.masked, mask_eq_mod h.power h.num_lt, ofNat_mod (dvd_two_pow h.power h.num_lt)]

theorem WeakSpscOk.sub_eq (h : WeakSpscOk producer consumer peak p c dev) {prod cons : Nat}
    (hle : cons ≤ prod) (hroom : prod ≤ cons + dev.numBuffers) :
    (BitVec.ofNat 32 prod - BitVec.ofNat 32 cons).toNat = prod - cons := by
  have hlt := h.num_lt
  exact depth_ofNat hle (by omega)

theorem WeakSpscOk.fits_next (h : WeakSpscOk producer consumer peak p c dev)
    (party : Party SpscIndex) : (dev.next party).Fits dev.bufferSize :=
  h.fits _ (Nat.mod_lt _ h.num_pos)

-- A load moves what its thread has seen and nothing else.
theorem WeakSpscOk.load (h : WeakSpscOk producer consumer peak p c dev) {order : LoadOrder}
    {me i j k : Nat} {l : SpscIndex} {value : BitVec 32}
    {mem : Memory SpscIndex Nat (BitVec 32) Slot}
    (hload : dev.mem.load order me l i = some (value, mem))
    (hchannel : Channel (BitVec.ofNat 32) dev.numBuffers { p with got := j }
      { c with got := k } mem) :
    WeakSpscOk producer consumer peak { p with got := j } { c with got := k }
      { dev with mem := mem } := by
  obtain ⟨message, -, -, -, rfl⟩ := load_eq_some hload
  exact { h with channel := hchannel, fits := h.fits, delivered := h.delivered }

theorem next_load {order : LoadOrder} {me i j : Nat} {l : SpscIndex} {value : BitVec 32}
    {mem : Memory SpscIndex Nat (BitVec 32) Slot}
    (hload : dev.mem.load order me l i = some (value, mem)) (party : Party SpscIndex) :
    { dev with mem := mem }.next { party with got := j } = dev.next party := by
  obtain ⟨message, -, -, -, rfl⟩ := load_eq_some hload
  rfl

theorem WeakSpscOk.fill (h : WeakSpscOk producer consumer peak p c dev) {slot : Slot}
    (hroom : p.last dev.mem < c.pos p.got + dev.numBuffers) (hslot : slot.Fits dev.bufferSize) :
    WeakSpscOk producer consumer peak p c
      { dev with
        mem := dev.mem.writeCell p.thread (p.last dev.mem % dev.numBuffers) slot } := by
  refine
    { h with
      channel := h.channel.write (Nat.le_refl _) hroom slot
      fits := fun k hk => ?_
      delivered := ?_ }
  · by_cases heq : k = p.last dev.mem % dev.numBuffers
    · simpa [Memory.writeCell, heq] using hslot
    · simpa [Memory.writeCell, heq] using h.fits k hk
  · have hsame := h.channel.window_writeCell p.thread slot (Nat.le_refl _) hroom (Nat.le_refl _)
    have hdelivered := h.delivered
    rw [pending, ← hsame] at hdelivered
    exact hdelivered

theorem next_fill_self (slot : Slot) :
    { dev with mem := dev.mem.writeCell p.thread (p.last dev.mem % dev.numBuffers) slot }.next p =
      slot :=
  Function.update_self ..

-- The consumer's slot is another one.
theorem WeakSpscOk.next_fill (h : WeakSpscOk producer consumer peak p c dev) (slot : Slot)
    (hroom : p.last dev.mem < c.pos p.got + dev.numBuffers)
    (hready : c.last dev.mem < p.pos c.got) :
    { dev with mem := dev.mem.writeCell p.thread (p.last dev.mem % dev.numBuffers) slot }.next c =
      dev.next c := by
  have hhead := h.channel.producer.pos_le_last h.channel.consumer.got_lt
  have htail := h.channel.consumer.pos_le_last h.channel.producer.got_lt
  have hne : p.last dev.mem % dev.numBuffers ≠ c.last dev.mem % dev.numBuffers :=
    cell_ne (hready.trans_le hhead) (by omega)
  exact Function.update_of_ne hne.symm ..

theorem WeakSpscOk.look (h : WeakSpscOk producer consumer peak p c dev)
    (hready : c.last dev.mem < p.pos c.got) :
    WeakSpscOk producer consumer peak p c
      { dev with
        mem := dev.mem.touch c.thread (c.last dev.mem % dev.numBuffers) .read } :=
  { h with
    channel := h.channel.touch (Nat.le_refl _) hready .read
    fits := h.fits
    delivered := h.delivered }

-- Publishing the next slot sends its message.
theorem WeakSpscOk.publish (h : WeakSpscOk producer consumer peak p c dev)
    (hroom : p.last dev.mem < c.pos p.got + dev.numBuffers) :
    WeakSpscOk producer consumer peak (p.advance dev.mem (p.last dev.mem + 1)) c
      { dev with
        mem := dev.mem.store .release p.thread p.index (BitVec.ofNat 32 (p.last dev.mem + 1))
        sent := dev.sent ++ [(dev.next p).message] } := by
  refine
    { h with
      channel := h.channel.publish_head (Nat.le_add_right _ 1) hroom
      fits := h.fits
      delivered := ?_ }
  rw [h.channel.pending_publish_producer _ (Nat.le_add_right _ 1), Nat.add_sub_cancel_left,
    List.map_append]
  exact h.delivered.push _

-- Releasing the oldest slot delivers its message.
theorem WeakSpscOk.release (h : WeakSpscOk producer consumer peak p c dev) (count : Nat)
    (hready : c.last dev.mem < p.pos c.got) :
    WeakSpscOk producer consumer peak p (c.advance dev.mem (c.last dev.mem + 1))
      { dev with
        mem := dev.mem.store .release c.thread c.index (BitVec.ofNat 32 (c.last dev.mem + 1))
        received := dev.received ++ [(count, (dev.next c).message.take count)] } := by
  have hhead := h.channel.producer.pos_le_last h.channel.consumer.got_lt
  refine
    { h with
      channel := h.channel.publish_tail (Nat.le_add_right _ 1) hready
      fits := h.fits
      delivered := ?_ }
  have hsplit := h.channel.pending_publish (BitVec.ofNat 32 (c.last dev.mem + 1))
    (Nat.le_add_right _ 1) (hready.trans_le hhead)
  rw [Nat.add_sub_cancel_left] at hsplit
  have hdelivered := h.delivered
  rw [hsplit, List.map_append] at hdelivered
  exact hdelivered.pop rfl

end Device

section Producer

variable {producer consumer peak me : Nat} {p c : Party SpscIndex} {dev dev' : WeakDev}
  {nonblock : Bool} {u : UserWrite} {next : WeakLocal}

-- What a step of the producer leaves to itself and to the consumer.
structure ProducerStep (producer consumer peak : Nat) (p c : Party SpscIndex) (dev : WeakDev)
    (me : Nat) (dev' : WeakDev) (next : WeakLocal) (p' : Party SpscIndex) : Prop where
  ok : WeakSpscOk producer consumer peak p' c dev'
  next : next.Ok producer consumer p' c dev' me
  consumer : ∀ u pc, WeakConsumerOk p c dev u pc → WeakConsumerOk p' c dev' u pc

theorem ProducerStep.load (hok : WeakSpscOk producer consumer peak p c dev) {order : LoadOrder}
    {i j : Nat} {l : SpscIndex} {value : BitVec 32} {mem : Memory SpscIndex Nat (BitVec 32) Slot}
    (hload : dev.mem.load order me l i = some (value, mem))
    (hchannel : Channel (BitVec.ofNat 32) dev.numBuffers { p with got := j } c mem)
    (hnext : next.Ok producer consumer { p with got := j } c { dev with mem := mem } me) :
    ProducerStep producer consumer peak p c dev me { dev with mem := mem } next
      { p with got := j } where
  ok := hok.load hload hchannel
  next := hnext
  consumer _ _ h := h.frame (last_eq (load_history hload)) rfl fun _ => next_load hload c

theorem ProducerStep.fill (hok : WeakSpscOk producer consumer peak p c dev) {slot : Slot}
    (hroom : p.last dev.mem < c.pos p.got + dev.numBuffers) (hslot : slot.Fits dev.bufferSize)
    (hnext : next.Ok producer consumer p c
      { dev with
        mem := dev.mem.writeCell p.thread (p.last dev.mem % dev.numBuffers) slot } me) :
    ProducerStep producer consumer peak p c dev me
      { dev with
        mem := dev.mem.writeCell p.thread (p.last dev.mem % dev.numBuffers) slot } next p where
  ok := hok.fill hroom hslot
  next := hnext
  consumer _ _ h := h.frame rfl rfl fun hready => hok.next_fill slot hroom hready

theorem WeakFilling.fill (h : WeakFilling p c dev u) (slot : Slot) :
    WeakFilling p c
      { dev with
        mem := dev.mem.writeCell p.thread (p.last dev.mem % dev.numBuffers) slot } u :=
  ⟨h.fits, h.room⟩

-- One byte of the copy into the producer's slot.
theorem ProducerStep.fillByte (hok : WeakSpscOk producer consumer peak p c dev)
    (hme : me = producer) (hfill : WeakFilling p c dev u) {i : Nat} (hi : i < u.count)
    (hbytes : ∀ j, j < i → (dev.next p).data[j]? = some (u.ubuf.getD j 0)) :
    ProducerStep producer consumer peak p c dev me
      { dev with
        mem := dev.mem.writeCell p.thread (p.last dev.mem % dev.numBuffers)
          { dev.next p with data := (dev.next p).data.set i (u.ubuf.getD i 0) } }
      (.write nonblock u (.copy (BitVec.ofNat 32 (p.last dev.mem)) (i + 1))) p := by
  obtain ⟨hdata, hlen⟩ := hok.fits_next p
  have hcount := hfill.fits
  refine .fill hok hfill.room ⟨?_, hlen⟩ ⟨hme, hfill.fill _, rfl, hi, ?_⟩
  · rw [List.length_set]
    exact hdata
  · rw [next_fill_self]
    exact bytes_set (by omega) hbytes

theorem weakWriteSpscStep_ok {pc : WeakWritePc} {choice : WeakSpscChoice}
    (hok : WeakSpscOk producer consumer peak p c dev) (hme : me = producer)
    (hpc : WeakProducerOk p c dev u pc)
    (h : weakWriteSpscStep me nonblock u dev pc choice = some (dev', next)) :
    ∃ p', ProducerStep producer consumer peak p c dev me dev' next p' := by
  have hchannel := hok.channel
  obtain rfl : me = p.thread := hme.trans hok.producer_thread.symm
  cases pc <;> cases choice <;> simp only [weakWriteSpscStep, reduceCtorEq] at h
  case clamp.go =>
    obtain ⟨rfl, rfl⟩ := Prod.mk.inj (Option.some.inj h)
    refine ⟨p, hok, ⟨hme, ?_⟩, fun _ _ => id⟩
    simp only [WeakProducerOk, UserWrite.clamp]
    split <;> omega
  case full.load i =>
    obtain ⟨prod, mem, hload, rfl, rfl⟩ := loads_eq_some h
    rw [← hok.prod] at hload
    obtain ⟨hchannel', rfl⟩ := hchannel.load_head hload
    refine ⟨p, .load hok hload hchannel' ⟨hme, hpc, ?_⟩⟩
    rw [last_eq (load_history hload)]
  case fullCons.load prod i =>
    obtain ⟨cons, mem, hload, rfl, rfl⟩ := loads_eq_some h
    obtain ⟨hfits, rfl⟩ := hpc
    rw [← hok.cons] at hload
    obtain ⟨hchannel', rfl, hgot, htail⟩ := hchannel.acquire_tail hload
    have hle := hchannel.last_le
    have hroom := hchannel.head_le
    refine ⟨_, .load hok hload hchannel' ?_⟩
    rw [hok.sub_eq (by omega) (by omega)]
    by_cases hfull : dev.numBuffers ≤ p.last dev.mem - c.pos i
    · rw [if_pos hfull]
      by_cases hnb : nonblock = true
      · rw [if_pos hnb]
        trivial
      · rw [if_neg hnb]
        exact ⟨hme, hfits⟩
    · rw [if_neg hfull]
      refine ⟨hme, hfits, ?_⟩
      change p.last mem < c.pos i + dev.numBuffers
      rw [last_eq (load_history hload)]
      omega
  case sleep.go =>
    obtain ⟨rfl, rfl⟩ := Prod.mk.inj (Option.some.inj h)
    exact ⟨p, { hok with }, ⟨hme, hpc⟩, fun _ _ hc => hc.frame rfl rfl fun _ => rfl⟩
  case test.load i =>
    obtain ⟨prod, mem, hload, rfl, rfl⟩ := loads_eq_some h
    rw [← hok.prod] at hload
    obtain ⟨hchannel', rfl⟩ := hchannel.load_head hload
    refine ⟨p, .load hok hload hchannel' ⟨hme, hpc, ?_⟩⟩
    rw [last_eq (load_history hload)]
  case testCons.load prod i =>
    obtain ⟨cons, mem, hload, rfl, rfl⟩ := loads_eq_some h
    rw [← hok.cons] at hload
    obtain ⟨hchannel', -⟩ := hchannel.acquire_tail hload
    refine ⟨_, .load hok hload hchannel' ⟨hme, ?_⟩⟩
    split <;> exact hpc.1
  case asleep.go =>
    obtain ⟨rfl, rfl⟩ := Prod.mk.inj (Option.some.inj h)
    exact ⟨p, hok, ⟨hme, hpc⟩, fun _ _ => id⟩
  case asleep.signal =>
    obtain ⟨rfl, rfl⟩ := Prod.mk.inj (Option.some.inj h)
    exact ⟨p, hok, trivial, fun _ _ => id⟩
  case produce.load i =>
    obtain ⟨prod, mem, hload, rfl, rfl⟩ := loads_eq_some h
    rw [← hok.prod] at hload
    obtain ⟨hchannel', rfl⟩ := hchannel.load_head hload
    have hlast := last_eq (p := p) (load_history hload)
    refine ⟨p, .load hok hload hchannel' ⟨hme, ⟨hpc.fits, ?_⟩, ?_, Nat.zero_le _, fun j hj => ?_⟩⟩
    · rw [hlast]
      exact hpc.room
    · rw [hlast]
    · omega
  case copy.go prod i =>
    obtain ⟨hfill, rfl, hi, hbytes⟩ := hpc
    rw [hok.masked_eq] at h
    by_cases hmore : i < u.count
    · rw [if_pos hmore] at h
      obtain ⟨rfl, rfl⟩ := Prod.mk.inj (Option.some.inj h)
      exact ⟨p, .fillByte hok hme hfill hmore hbytes⟩
    · rw [if_neg hmore] at h
      by_cases hfault : u.ubuf.length < u.count
      · rw [if_pos hfault] at h
        obtain ⟨rfl, rfl⟩ := Prod.mk.inj (Option.some.inj h)
        exact ⟨p, hok, trivial, fun _ _ => id⟩
      · rw [if_neg hfault] at h
        obtain ⟨rfl, rfl⟩ := Prod.mk.inj (Option.some.inj h)
        refine ⟨p, hok, ⟨hme, hfill, rfl, ?_⟩, fun _ _ => id⟩
        exact take_eq_of_bytes (Nat.le_of_not_lt hfault) fun j hj => hbytes j (by omega)
  case setLen.go prod =>
    obtain ⟨hfill, rfl, hbytes⟩ := hpc
    rw [hok.masked_eq] at h
    obtain ⟨rfl, rfl⟩ := Prod.mk.inj (Option.some.inj h)
    refine ⟨p, .fill hok hfill.room ⟨(hok.fits_next p).1, hfill.fits⟩ ⟨hme, hfill.fill _, rfl, ?_⟩⟩
    rw [next_fill_self]
    exact hbytes
  case publish.go prod =>
    obtain ⟨hfill, rfl, hmessage⟩ := hpc
    rw [← hok.prod, ← hmessage] at h
    obtain ⟨rfl, rfl⟩ := Prod.mk.inj (Option.some.inj h)
    have hlast := last_store_of_ne (m := dev.mem) .release p.thread
      (BitVec.ofNat 32 (p.last dev.mem) + 1) hchannel.indices.symm
    have hnew : BitVec.ofNat 32 (p.last dev.mem) + 1 = BitVec.ofNat 32 (p.last dev.mem + 1) :=
      (BitVec.ofNat_add ..).symm
    have hpublish := hok.publish hfill.room
    rw [← hnew] at hpublish
    refine ⟨_, hpublish, ⟨hme, ?_⟩, fun _ _ hc => ?_⟩
    · simp only [WeakProducerOk]
      rw [hnew, advance_last]
    · refine hc.frame hlast (advance_pos _ hchannel.consumer.got_lt) fun _ => ?_
      simp only [WeakDev.next, hlast]
      rfl
  case bytes.go prod =>
    obtain ⟨rfl, rfl⟩ := Prod.mk.inj (Option.some.inj h)
    exact ⟨p, { hok with }, ⟨hme, hpc⟩, fun _ _ hc => hc.frame rfl rfl fun _ => rfl⟩
  case msgs.go prod =>
    obtain ⟨rfl, rfl⟩ := Prod.mk.inj (Option.some.inj h)
    exact ⟨p, { hok with }, ⟨hme, hpc⟩, fun _ _ hc => hc.frame rfl rfl fun _ => rfl⟩
  case occ.load prod i =>
    obtain ⟨cons, mem, hload, rfl, rfl⟩ := loads_eq_some h
    rw [← hok.cons] at hload
    obtain ⟨hchannel', rfl, hgot, htail⟩ := hchannel.peek_tail hload
    have hle := hchannel.last_le
    have hroom := hchannel.head_le
    refine ⟨p, .load hok hload hchannel' ⟨hme, ?_⟩⟩
    simp only [WeakProducerOk]
    rw [hpc, hok.sub_eq (by omega) (by omega)]
    omega
  case peak.go occ =>
    obtain ⟨rfl, rfl⟩ := Prod.mk.inj (Option.some.inj h)
    refine ⟨p, { hok with peak_le := ?_, traced_le := fun x hx => ?_ }, trivial,
      fun _ _ hc => hc.frame rfl rfl fun _ => rfl⟩
    · change (if dev.peakCount < occ.toNat then occ.toNat else dev.peakCount) ≤
        max peak dev.numBuffers
      have hpeak := hok.peak_le
      have hocc : occ.toNat ≤ dev.numBuffers := hpc
      split <;> omega
    · rcases List.mem_append.mp hx with hx | hx
      · exact hok.traced_le x hx
      · rw [List.mem_singleton.mp hx]
        exact hpc

end Producer

section Consumer

variable {producer consumer peak me : Nat} {p c : Party SpscIndex} {dev dev' : WeakDev}
  {nonblock : Bool} {u : UserRead} {next : WeakLocal}

-- What a step of the consumer leaves to itself and to the producer.
structure ConsumerStep (producer consumer peak : Nat) (p c : Party SpscIndex) (dev : WeakDev)
    (me : Nat) (dev' : WeakDev) (next : WeakLocal) (c' : Party SpscIndex) : Prop where
  ok : WeakSpscOk producer consumer peak p c' dev'
  next : next.Ok producer consumer p c' dev' me
  producer : ∀ u pc, WeakProducerOk p c dev u pc → WeakProducerOk p c' dev' u pc

theorem ConsumerStep.load (hok : WeakSpscOk producer consumer peak p c dev) {order : LoadOrder}
    {i k : Nat} {l : SpscIndex} {value : BitVec 32} {mem : Memory SpscIndex Nat (BitVec 32) Slot}
    (hload : dev.mem.load order me l i = some (value, mem))
    (hchannel : Channel (BitVec.ofNat 32) dev.numBuffers p { c with got := k } mem)
    (hnext : next.Ok producer consumer p { c with got := k } { dev with mem := mem } me) :
    ConsumerStep producer consumer peak p c dev me { dev with mem := mem } next
      { c with got := k } where
  ok := hok.load hload hchannel
  next := hnext
  producer _ _ h := h.frame rfl rfl (last_eq (load_history hload)) rfl (next_load hload p)

theorem ConsumerStep.look (hok : WeakSpscOk producer consumer peak p c dev)
    (hready : c.last dev.mem < p.pos c.got)
    (hnext : next.Ok producer consumer p c
      { dev with
        mem := dev.mem.touch c.thread (c.last dev.mem % dev.numBuffers) .read } me) :
    ConsumerStep producer consumer peak p c dev me
      { dev with
        mem := dev.mem.touch c.thread (c.last dev.mem % dev.numBuffers) .read } next c where
  ok := hok.look hready
  next := hnext
  producer _ _ h := h.frame rfl rfl rfl rfl rfl

theorem weakReadSpscStep_ok {pc : WeakReadPc} {choice : WeakSpscChoice}
    (hok : WeakSpscOk producer consumer peak p c dev) (hme : me = consumer)
    (hpc : WeakConsumerOk p c dev u pc)
    (h : weakReadSpscStep me nonblock u dev pc choice = some (dev', next)) :
    ∃ c', ConsumerStep producer consumer peak p c dev me dev' next c' := by
  have hchannel := hok.channel
  obtain rfl : me = c.thread := hme.trans hok.consumer_thread.symm
  cases pc <;> cases choice <;> simp only [weakReadSpscStep, reduceCtorEq] at h
  case empty.load i =>
    obtain ⟨prod, mem, hload, rfl, rfl⟩ := loads_eq_some h
    rw [← hok.prod] at hload
    obtain ⟨hchannel', rfl, -⟩ := hchannel.acquire_head hload
    exact ⟨_, .load hok hload hchannel' ⟨hme, rfl⟩⟩
  case emptyCons.load prod i =>
    obtain ⟨cons, mem, hload, rfl, rfl⟩ := loads_eq_some h
    obtain rfl := hpc
    rw [← hok.cons] at hload
    obtain ⟨hchannel', rfl⟩ := hchannel.load_tail hload
    refine ⟨c, .load hok hload hchannel' ?_⟩
    by_cases hempty : BitVec.ofNat 32 (p.pos c.got) = BitVec.ofNat 32 (c.last dev.mem)
    · rw [if_pos hempty]
      by_cases hnb : nonblock = true
      · rw [if_pos hnb]
        trivial
      · rw [if_neg hnb]
        exact ⟨hme, trivial⟩
    · rw [if_neg hempty]
      refine ⟨hme, ?_⟩
      change c.last mem < p.pos c.got
      rw [last_eq (load_history hload)]
      exact Nat.lt_of_le_of_ne hchannel.tail_le fun heq => hempty (by rw [heq])
  case sleep.go =>
    obtain ⟨rfl, rfl⟩ := Prod.mk.inj (Option.some.inj h)
    exact ⟨c, { hok with }, ⟨hme, trivial⟩, fun _ _ hp => hp.frame rfl rfl rfl rfl rfl⟩
  case test.load i =>
    obtain ⟨prod, mem, hload, rfl, rfl⟩ := loads_eq_some h
    rw [← hok.prod] at hload
    obtain ⟨hchannel', -⟩ := hchannel.acquire_head hload
    exact ⟨_, .load hok hload hchannel' ⟨hme, trivial⟩⟩
  case testCons.load prod i =>
    obtain ⟨cons, mem, hload, rfl, rfl⟩ := loads_eq_some h
    rw [← hok.cons] at hload
    obtain ⟨hchannel', -⟩ := hchannel.load_tail hload
    refine ⟨c, .load hok hload hchannel' ⟨hme, ?_⟩⟩
    split <;> trivial
  case asleep.go =>
    obtain ⟨rfl, rfl⟩ := Prod.mk.inj (Option.some.inj h)
    exact ⟨c, hok, ⟨hme, trivial⟩, fun _ _ => id⟩
  case asleep.signal =>
    obtain ⟨rfl, rfl⟩ := Prod.mk.inj (Option.some.inj h)
    exact ⟨c, hok, trivial, fun _ _ => id⟩
  case consume.load i =>
    obtain ⟨cons, mem, hload, rfl, rfl⟩ := loads_eq_some h
    rw [← hok.cons] at hload
    obtain ⟨hchannel', rfl⟩ := hchannel.load_tail hload
    have hlast := last_eq (p := c) (load_history hload)
    refine ⟨c, .load hok hload hchannel' ⟨hme, ?_, ?_⟩⟩
    · rw [hlast]
      exact hpc
    · rw [hlast]
  case len.go cons =>
    obtain ⟨hready, rfl⟩ := hpc
    rw [hok.masked_eq] at h
    obtain ⟨rfl, rfl⟩ := Prod.mk.inj (Option.some.inj h)
    exact ⟨c, .look hok hready ⟨hme, hready, rfl, rfl, Nat.zero_le _, rfl⟩⟩
  case copy.go f =>
    obtain ⟨hready, hcons, hlen, hout, hbytes⟩ := hpc
    rw [hcons, hok.masked_eq] at h
    obtain ⟨hdata, hfits⟩ := hok.fits_next c
    by_cases hmore : f.out.length < f.len
    · rw [if_pos hmore] at h
      by_cases hroom : f.out.length < u.room
      · rw [if_pos hroom] at h
        obtain ⟨rfl, rfl⟩ := Prod.mk.inj (Option.some.inj h)
        have hnext : (dev.next c).data.take f.out.length ++
            [(dev.next c).data.getD f.out.length 0] =
              (dev.next c).data.take (f.out.length + 1) := take_succ_eq (by omega)
        refine ⟨c, .look hok hready ⟨hme, hready, rfl, hlen, ?_, ?_⟩⟩
        · rw [List.length_append]
          exact hmore
        · rw [List.length_append, List.length_singleton]
          exact (congrArg (· ++ [_]) hbytes).trans hnext
      · rw [if_neg hroom] at h
        obtain ⟨rfl, rfl⟩ := Prod.mk.inj (Option.some.inj h)
        exact ⟨c, hok, trivial, fun _ _ => id⟩
    · rw [if_neg hmore] at h
      obtain ⟨rfl, rfl⟩ := Prod.mk.inj (Option.some.inj h)
      refine ⟨c, hok, ⟨hme, hready, hcons, ?_⟩, fun _ _ => id⟩
      have hdone : f.out.length = min u.count (dev.next c).len := by omega
      rw [Slot.message, List.take_take, ← hdone]
      exact hbytes
  case publish.go f =>
    obtain ⟨hready, hcons, hout⟩ := hpc
    rw [← hok.cons, hout, hcons] at h
    obtain ⟨rfl, rfl⟩ := Prod.mk.inj (Option.some.inj h)
    have hlast := last_store_of_ne (m := dev.mem) .release c.thread
      (BitVec.ofNat 32 (c.last dev.mem) + 1) hchannel.indices
    have hnew : BitVec.ofNat 32 (c.last dev.mem) + 1 = BitVec.ofNat 32 (c.last dev.mem + 1) :=
      (BitVec.ofNat_add ..).symm
    have hrelease := hok.release u.count hready
    rw [← hnew] at hrelease
    refine ⟨_, hrelease, ⟨hme, ?_⟩, fun _ _ hp => ?_⟩
    · simp only [WeakConsumerOk]
      rw [hcons, hnew, advance_last]
    · refine hp.frame rfl rfl hlast (advance_pos _ hchannel.producer.got_lt) ?_
      simp only [WeakDev.next, hlast]
      rfl
  case bytes.go f =>
    obtain ⟨rfl, rfl⟩ := Prod.mk.inj (Option.some.inj h)
    exact ⟨c, { hok with }, ⟨hme, hpc⟩, fun _ _ hp => hp.frame rfl rfl rfl rfl rfl⟩
  case msgs.go f =>
    obtain ⟨rfl, rfl⟩ := Prod.mk.inj (Option.some.inj h)
    exact ⟨c, { hok with }, ⟨hme, hpc⟩, fun _ _ hp => hp.frame rfl rfl rfl rfl rfl⟩
  case trace.load f i =>
    obtain ⟨⟨prod, mem⟩, hload, heq⟩ := Option.map_eq_some_iff.mp h
    obtain ⟨rfl, rfl⟩ := Prod.mk.inj heq
    rw [← hok.prod] at hload
    obtain ⟨hchannel', rfl, hgot, hhead⟩ := hchannel.peek_head hload
    have htail := hchannel.tail_le
    have hroom := hchannel.last_le_add
    have hload' := hok.load (j := p.got) (k := c.got) hload hchannel'
    refine ⟨c, { hload' with traced_le := fun x hx => ?_ }, trivial, fun _ _ hp =>
      hp.frame rfl rfl (last_eq (load_history hload)) rfl (next_load hload p)⟩
    rcases List.mem_append.mp hx with hx | hx
    · exact hok.traced_le x hx
    · rw [List.mem_singleton.mp hx, show f.cons + 1 = _ from hpc,
        hok.sub_eq (by omega) (by omega)]
      change p.pos i - c.last dev.mem ≤ dev.numBuffers
      omega

end Consumer

section Invariant

variable {producer consumer peak : Nat} {s t : WeakSpscSystem}

theorem WeakLocal.Ok.of_eq {p c p' c' : Party SpscIndex} {dev dev' : WeakDev} {q : Nat}
    {here : WeakLocal} (h : here.Ok producer consumer p c dev q)
    (hwrite : q = producer → ∀ u pc, WeakProducerOk p c dev u pc → WeakProducerOk p' c' dev' u pc)
    (hread : q = consumer → ∀ u pc, WeakConsumerOk p c dev u pc →
      WeakConsumerOk p' c' dev' u pc) :
    here.Ok producer consumer p' c' dev' q := by
  cases here with
  | write nonblock u pc => exact ⟨h.1, hwrite h.1 u pc h.2⟩
  | read nonblock u pc => exact ⟨h.1, hread h.1 u pc h.2⟩
  | idle | done => trivial

theorem weakSpscInv_step {act : Act WeakSpscChoice} (hinv : WeakSpscInv producer consumer peak s)
    (hstart : WeakPair producer consumer s act) (h : step weakSpsc s act = some t) :
    WeakSpscInv producer consumer peak t := by
  obtain ⟨p, c, hok, hlocal⟩ := hinv.parties
  have hhere := hlocal act.pid
  obtain ⟨⟨dev, next⟩, hp, rfl⟩ := step_eq_some h
  have hstep : ∃ p' c', WeakSpscOk producer consumer peak p' c' dev ∧
      next.Ok producer consumer p' c' dev act.pid ∧
      ∀ q, q ≠ act.pid → (s.locals q).Ok producer consumer p' c' dev q := by
    unfold WeakPair at hstart
    generalize s.locals act.pid = here at hp hhere
    generalize act.choice = choice at hp hstart
    cases here with
    | read nonblock u pc =>
        obtain ⟨c', hread⟩ := weakReadSpscStep_ok hok hhere.1 hhere.2 hp
        refine ⟨p, c', hread.ok, hread.next, fun q hq =>
          (hlocal q).of_eq (fun _ => hread.producer) fun heq => ?_⟩
        exact absurd (heq.trans hhere.1.symm) hq
    | write nonblock u pc =>
        obtain ⟨p', hwrite⟩ := weakWriteSpscStep_ok hok hhere.1 hhere.2 hp
        refine ⟨p', c, hwrite.ok, hwrite.next, fun q hq =>
          (hlocal q).of_eq (fun heq => ?_) fun _ => hwrite.consumer⟩
        exact absurd (heq.trans hhere.1.symm) hq
    | idle | done =>
        cases choice <;> simp only [weakSpsc, weakSpscEnter, reduceCtorEq] at hp
        all_goals
          obtain ⟨rfl, rfl⟩ := Prod.mk.inj (Option.some.inj hp)
          exact ⟨p, c, hok, ⟨hstart, trivial⟩, fun q _ => hlocal q⟩
  obtain ⟨p', c', hok', hnext, hothers⟩ := hstep
  exact ⟨p', c', hok', State.forall_put
    (P := fun q (here : WeakLocal) => here.Ok producer consumer p' c' dev q) hnext hothers⟩

theorem weakSpscInv_boot {dev : Dev} (hdev : Wellformed dev) (hmode : dev.mode = .SPSC)
    (hempty : queue dev = []) (hne : producer ≠ consumer) :
    WeakSpscInv producer consumer dev.peakCount (weakSpscBoot dev) := by
  have hring : SpscRing dev := by simpa only [Discipline, hmode] using hdev.discipline
  have hdepth : depth dev.prodIdx dev.consIdx = 0 := by
    simpa [queue, hmode, spscQueue] using congrArg List.length hempty
  have hsame := (depth_eq_zero_iff _ _).mp hdepth
  have hindex : dev.index = fun _ => BitVec.ofNat 32 dev.consIdx.toNat := by
    funext l
    cases l <;> simp [Dev.index, hsame]
  have hchannel : Channel (BitVec.ofNat 32) dev.numBuffers _ _ (Memory.fresh _ dev.slot) :=
    Channel.fresh dev.numBuffers hne (show SpscIndex.prod ≠ SpscIndex.cons by decide)
      dev.consIdx.toNat dev.slot
  have hnum := hdev.geometry.num_lt
  rw [← hindex] at hchannel
  refine ⟨_, _, ⟨hring.power, hnum, rfl, rfl, rfl, rfl, hchannel, fun k hk => ?_, ?_,
    Nat.le_max_left _ _, fun _ hx => absurd hx List.not_mem_nil⟩, fun _ => trivial⟩
  · have hmem := slot_mem hdev.geometry hk
    exact ⟨hdev.geometry.data_length _ hmem, hdev.geometry.len_le _ hmem⟩
  · simpa [weakSpscBoot, pending, Party.last] using delivered_nil

end Invariant

section Runs

variable {dev : Dev} {producer consumer : Nat} {s : WeakSpscSystem}
  {acts : List (Act WeakSpscChoice)}

end Runs

-- The reader first misses the message that has been published, and the writer then
-- misses that the slot has been given back. The indices are about to wrap.
def staleHandover : List (Act WeakSpscChoice) :=
  [⟨0, .write true ⟨[7, 8, 9], 3⟩⟩, ⟨0, .go⟩, ⟨0, .load 0⟩, ⟨0, .load 0⟩, ⟨0, .load 0⟩] ++
    List.replicate 7 ⟨0, .go⟩ ++ [⟨0, .load 0⟩, ⟨0, .go⟩] ++
    [⟨1, .read false ⟨4, 4⟩⟩, ⟨1, .load 0⟩, ⟨1, .load 0⟩, ⟨1, .go⟩, ⟨1, .load 1⟩, ⟨1, .load 0⟩,
      ⟨1, .load 1⟩, ⟨1, .load 0⟩, ⟨1, .load 0⟩] ++ List.replicate 7 ⟨1, .go⟩ ++ [⟨1, .load 1⟩] ++
    [⟨0, .write true ⟨[5], 1⟩⟩, ⟨0, .go⟩, ⟨0, .load 1⟩, ⟨0, .load 0⟩]

theorem staleHandover_allowed (s : WeakSpscSystem) :
    Along weakSpsc (WeakPair 0 1) s staleHandover := by
  apply along_of_mem
  intro s
  simp [staleHandover, WeakPair]

end Kbuf
