import Kbuf.Lib.Circular
import Kbuf.Lib.ReleaseAcquire

namespace Handoff

open ReleaseAcquire

variable {ι α β : Type*}

-- One side of a ring: the thread, the index it publishes, the position that each of its
-- stores to that index stands for, and the last store of the other side it has acquired.
structure Party (ι : Type*) where
  thread : Nat
  index : ι
  pos : Nat → Nat
  got : Nat

-- The position that a party published last.
def Party.last (p : Party ι) (m : Memory ι Nat α β) : Nat :=
  p.pos ((m.history p.index).length - 1)

-- The party once it has published one more position.
def Party.advance (p : Party ι) (m : Memory ι Nat α β) (n : Nat) : Party ι :=
  { p with pos := Function.update p.pos (m.history p.index).length n }

def Party.shift (p : Party ι) (cap : Nat) : Party ι := { p with pos := fun i => p.pos i + cap }

structure Knows (p other : Party ι) (m : Memory ι Nat α β) : Prop where
  mono : ∀ i j, i ≤ j → j < (m.history p.index).length → p.pos i ≤ p.pos j
  own : (m.view p.thread).seen p.index + 1 = (m.history p.index).length
  got_lt : p.got < (m.history other.index).length
  got_le : p.got ≤ (m.view p.thread).seen other.index

-- A ring of `cap` cells between two threads. The producer knows of all accesses to the
-- cells from the head that the consumer has acquired to the tail that it has itself
-- acquired, the consumer to all others. What a party has published but the other one has
-- not acquired yet can be learnt from the message.
structure Ring (cap : Nat) (p c : Party ι) (m : Memory ι Nat α β) : Prop where
  threads : p.thread ≠ c.thread
  indices : p.index ≠ c.index
  producer : Knows p c m
  consumer : Knows c p m
  tail_le : c.last m ≤ p.pos c.got
  head_le : p.last m ≤ c.pos p.got + cap
  free : ∀ q, p.pos c.got ≤ q → q < c.pos p.got + cap → Settled m (m.view p.thread) (q % cap)
  full : ∀ q, c.pos p.got ≤ q → q < p.pos c.got → Settled m (m.view c.thread) (q % cap)
  heads : ∀ j message, c.got ≤ j → (m.history p.index)[j]? = some message →
    ∀ q, p.pos c.got ≤ q → q < p.pos j → Settled m message.view (q % cap)
  tails : ∀ j message, p.got ≤ j → (m.history c.index)[j]? = some message →
    ∀ q, c.pos p.got ≤ q → q < c.pos j → Settled m message.view (q % cap)
  clean : m.raced = false
  valid : m.Valid

section Swap

variable {cap : Nat} {p c : Party ι} {m : Memory ι Nat α β}

theorem Knows.shift (h : Knows p c m) : Knows (p.shift cap) c m where
  mono i j hij hj := Nat.add_le_add_right (h.mono i j hij hj) cap
  own := h.own
  got_lt := h.got_lt
  got_le := h.got_le

-- To the consumer the ring is one of free cells, which it produces: position `q` is
-- free again as position `q + cap`.
theorem Ring.swap (h : Ring cap p c m) : Ring cap (c.shift cap) p m where
  threads := h.threads.symm
  indices := h.indices.symm
  producer := h.consumer.shift
  consumer := ⟨h.producer.mono, h.producer.own, h.producer.got_lt, h.producer.got_le⟩
  tail_le := h.head_le
  head_le := Nat.add_le_add_right h.tail_le cap
  free q hlow hhigh := by
    change c.pos p.got + cap ≤ q at hlow
    change q < p.pos c.got + cap at hhigh
    have hq := h.full (q - cap) (by omega) (by omega)
    rwa [← Nat.add_mod_right, Nat.sub_add_cancel (by omega)] at hq
  full := h.free
  heads j message hj hmessage q hlow hhigh := by
    change c.pos p.got + cap ≤ q at hlow
    change q < c.pos j + cap at hhigh
    have hq := h.tails j message hj hmessage (q - cap) (by omega) (by omega)
    rwa [← Nat.add_mod_right, Nat.sub_add_cancel (by omega)] at hq
  tails := h.heads
  clean := h.clean
  valid := h.valid

theorem Ring.unswap (h : Ring cap (c.shift cap) p m) : Ring cap p c m where
  threads := h.threads.symm
  indices := h.indices.symm
  producer := ⟨h.consumer.mono, h.consumer.own, h.consumer.got_lt, h.consumer.got_le⟩
  consumer :=
    { mono := fun i j hij hj => Nat.le_of_add_le_add_right (h.producer.mono i j hij hj)
      own := h.producer.own
      got_lt := h.producer.got_lt
      got_le := h.producer.got_le }
  tail_le := Nat.le_of_add_le_add_right h.head_le
  head_le := h.tail_le
  free := h.full
  full q hlow hhigh := by
    have hq := h.free (q + cap) (Nat.add_le_add_right hlow cap) (Nat.add_lt_add_right hhigh cap)
    rwa [Nat.add_mod_right] at hq
  heads := h.tails
  tails j message hj hmessage q hlow hhigh := by
    have hq := h.heads j message hj hmessage (q + cap) (Nat.add_le_add_right hlow cap)
      (Nat.add_lt_add_right hhigh cap)
    rwa [Nat.add_mod_right] at hq
  clean := h.clean
  valid := h.valid

end Swap

section Positions

variable {cap : Nat} {p c : Party ι} {m : Memory ι Nat α β}

theorem Knows.pos_le_last (h : Knows p c m) {j : Nat} (hj : j < (m.history p.index).length) :
    p.pos j ≤ p.last m :=
  h.mono j _ (by omega) (by omega)

theorem last_eq {m' : Memory ι Nat α β} (h : m'.history = m.history) : p.last m' = p.last m := by
  rw [Party.last, h]
  rfl

-- Positions less than one revolution apart are in different cells.
theorem cell_ne {q r : Nat} (hqr : q < r) (hr : r < q + cap) : r % cap ≠ q % cap := by
  have hne := Circular.position_ne cap 0 hqr hr
  simpa using hne.symm

theorem advance_pos {j : Nat} (n : Nat) (hj : j < (m.history c.index).length) :
    (c.advance m n).pos j = c.pos j := by
  simp [Party.advance, Nat.ne_of_lt hj]

end Positions

section Grow

variable {cap : Nat} {p c : Party ι} {m m' : Memory ι Nat α β}

-- Nothing happens but that some thread learns more.
structure Grows (m m' : Memory ι Nat α β) : Prop where
  history : m'.history = m.history
  accesses : m'.accesses = m.accesses
  raced : m'.raced = m.raced
  seen : ∀ t l, (m.view t).seen l ≤ (m'.view t).seen l
  clock : ∀ t k, (m.view t).clock k ≤ (m'.view t).clock k
  valid : m'.Valid

theorem Knows.grow (h : Knows p c m) (hgrow : Grows m m') : Knows p c m' where
  mono := by
    rw [hgrow.history]
    exact h.mono
  own := by
    have hle := hgrow.seen p.thread p.index
    have hlt := hgrow.valid.view p.thread p.index
    have hown := h.own
    rw [hgrow.history] at hlt ⊢
    omega
  got_lt := by
    rw [hgrow.history]
    exact h.got_lt
  got_le := Nat.le_trans h.got_le (hgrow.seen p.thread c.index)

-- What the threads learn by other ways than the ring does it no harm.
theorem Ring.grow (h : Ring cap p c m) (hgrow : Grows m m') : Ring cap p c m' where
  threads := h.threads
  indices := h.indices
  producer := h.producer.grow hgrow
  consumer := h.consumer.grow hgrow
  tail_le := by
    rw [last_eq hgrow.history]
    exact h.tail_le
  head_le := by
    rw [last_eq hgrow.history]
    exact h.head_le
  free q hlow hhigh :=
    (h.free q hlow hhigh).mono (congrFun hgrow.accesses _) (hgrow.clock p.thread)
  full q hlow hhigh :=
    (h.full q hlow hhigh).mono (congrFun hgrow.accesses _) (hgrow.clock c.thread)
  heads j message hj hmessage q hlow hhigh := by
    rw [hgrow.history] at hmessage
    exact (h.heads j message hj hmessage q hlow hhigh).mono (congrFun hgrow.accesses _)
      fun _ => Nat.le_refl _
  tails j message hj hmessage q hlow hhigh := by
    rw [hgrow.history] at hmessage
    exact (h.tails j message hj hmessage q hlow hhigh).mono (congrFun hgrow.accesses _)
      fun _ => Nat.le_refl _
  clean := hgrow.raced.trans h.clean
  valid := hgrow.valid

end Grow

section Cells

variable {cap : Nat} {p c : Party ι} {m : Memory ι Nat α β}

-- A party may touch the cells from the position it published last up to the one that it
-- has acquired. No other view speaks of them.
theorem Ring.touch (h : Ring cap p c m) {q : Nat} (hlow : c.last m ≤ q)
    (hhigh : q < p.pos c.got) (kind : Kind) :
    Ring cap p c (m.touch c.thread (q % cap) kind) := by
  have hstart := h.consumer.pos_le_last h.producer.got_lt
  have hend := Nat.le_trans (h.producer.pos_le_last h.consumer.got_lt) h.head_le
  have hself := h.full q (Nat.le_trans hstart hlow) hhigh
  have hother := touch_view_of_ne (m := m) (k := q % cap) h.threads kind
  have hsame {r : Nat} (hr : r % cap ≠ q % cap) :
      (m.touch c.thread (q % cap) kind).accesses (r % cap) = m.accesses (r % cap) :=
    touch_accesses_of_ne hr kind
  refine
    { h with
      producer := ⟨h.producer.mono, ?_, h.producer.got_lt, ?_⟩
      consumer := ⟨h.consumer.mono, ?_, h.consumer.got_lt, ?_⟩
      free := fun r hr hr' => ?_
      full := fun r hr hr' => ?_
      heads := fun j message hj hmessage r hr hr' => ?_
      tails := fun j message hj hmessage r hr hr' => ?_
      clean := touch_raced h.clean hself kind
      valid := h.valid.touch _ kind }
  · rw [hother]
    exact h.producer.own
  · rw [hother]
    exact h.producer.got_le
  · rw [touch_view_self]
    exact h.consumer.own
  · rw [touch_view_self]
    exact h.consumer.got_le
  · rw [hother]
    exact (h.free r hr hr').mono (hsame (cell_ne (by omega) (by omega))) (fun _ => Nat.le_refl _)
  · by_cases hcell : r % cap = q % cap
    · rw [hcell]
      exact hself.touch_self kind
    · rw [touch_view_self]
      exact (h.full r hr hr').mono (hsame hcell) (clock_le_tick _ _)
  · have hj' := h.producer.pos_le_last (List.getElem?_eq_some_iff.mp hmessage).1
    have hhead := h.head_le
    exact (h.heads j message hj hmessage r hr hr').mono
      (hsame (cell_ne (by omega) (by omega))) (fun _ => Nat.le_refl _)
  · have hj' := h.consumer.pos_le_last (List.getElem?_eq_some_iff.mp hmessage).1
    exact (h.tails j message hj hmessage r hr hr').mono
      (hsame (cell_ne (by omega) (by omega)).symm) (fun _ => Nat.le_refl _)

end Cells

section Steps

variable [DecidableEq ι] {cap : Nat} {p c : Party ι} {m m' : Memory ι Nat α β}

-- A load that acquires nothing only moves what its thread has seen.
theorem Ring.glance (h : Ring cap p c m) {l : ι} {i : Nat} {value : α}
    (hl : l = p.index ∨ l = c.index) (hload : m.load .relaxed c.thread l i = some (value, m')) :
    Ring cap p c m' := by
  have valid := h.valid.load hload
  obtain ⟨message, hseen, hmessage, -, rfl⟩ := load_eq_some hload
  rw [if_neg (by decide)]
  have hlt := (List.getElem?_eq_some_iff.mp hmessage).1
  have hother := setView_view_of_ne (m := m) ((m.view c.thread).see l i) h.threads
  have hown := h.consumer.own
  have hgot := h.consumer.got_le
  refine
    { h with
      producer := ⟨h.producer.mono, ?_, h.producer.got_lt, ?_⟩
      consumer := ⟨h.consumer.mono, ?_, h.consumer.got_lt, ?_⟩
      free := fun q hlow hhigh => ?_
      full := fun q hlow hhigh => ?_
      valid := valid }
  · rw [hother]
    exact h.producer.own
  · rw [hother]
    exact h.producer.got_le
  · rw [setView_view_self, setView_history]
    rcases hl with rfl | rfl
    · simpa [View.see, h.indices.symm] using hown
    · have hi : i + 1 = (m.history c.index).length := by omega
      simpa [View.see] using hi
  · rw [setView_view_self]
    rcases hl with rfl | rfl
    · simpa [View.see] using Nat.le_trans hgot hseen
    · simpa [View.see, h.indices] using hgot
  · rw [hother]
    exact h.free q hlow hhigh
  · rw [setView_view_self]
    exact h.full q hlow hhigh

-- An acquiring load of the other side's index brings its cells over.
theorem Ring.acquire (h : Ring cap p c m) {i : Nat} {value : α}
    (hload : m.load .acquire c.thread p.index i = some (value, m')) :
    Ring cap p { c with got := i } m' := by
  have valid := h.valid.load hload
  obtain ⟨message, hseen, hmessage, -, rfl⟩ := load_eq_some hload
  rw [if_pos rfl]
  have hlt := (List.getElem?_eq_some_iff.mp hmessage).1
  have hother := setView_view_of_ne (m := m)
    (((m.view c.thread).see p.index i).join message.view) h.threads
  have hgot := Nat.le_trans h.consumer.got_le hseen
  have hpos := h.producer.mono c.got i hgot hlt
  have hown := h.consumer.own
  have htail := h.tail_le
  refine
    { h with
      producer := ⟨h.producer.mono, ?_, h.producer.got_lt, ?_⟩
      consumer := ⟨h.consumer.mono, ?_, hlt, ?_⟩
      tail_le := Nat.le_trans htail hpos
      free := fun q hlow hhigh => ?_
      full := fun q hlow hhigh => ?_
      heads := fun j other hj hother q hlow hhigh => ?_
      valid := valid }
  · rw [hother]
    exact h.producer.own
  · rw [hother]
    exact h.producer.got_le
  · rw [setView_view_self, setView_history]
    have hbound := h.valid.message _ _ (List.mem_of_getElem? hmessage) c.index
    have hmax : max ((m.view c.thread).seen c.index) (message.view.seen c.index) =
        (m.view c.thread).seen c.index := by omega
    simpa [View.join, View.see, h.indices.symm, hmax] using hown
  · rw [setView_view_self]
    simp [View.join, View.see]
  · rw [hother]
    exact h.free q (Nat.le_trans hpos hlow) hhigh
  · rw [setView_view_self]
    by_cases hq : q < p.pos c.got
    · exact (h.full q hlow hq).mono rfl (clock_le_join_left _ _)
    · exact (h.heads i message hgot hmessage q (by omega) hhigh).mono rfl (clock_le_join_right _ _)
  · exact h.heads j other (Nat.le_trans hgot hj) hother q (Nat.le_trans hpos hlow) hhigh

theorem advance_last (n : Nat) (value : α) :
    (c.advance m n).last (m.store .release c.thread c.index value) = n := by
  simp [Party.last, Party.advance, store_history_self]

theorem last_store_of_ne (order : StoreOrder) {l : ι} (me : Nat) (value : α) (hl : c.index ≠ l) :
    c.last (m.store order me l value) = c.last m := by
  rw [Party.last, store_history_of_ne order value hl]
  rfl

theorem Knows.publish (h : Knows c p m) (hne : p.index ≠ c.index) {n : Nat} (value : α)
    (hlow : c.last m ≤ n) :
    Knows (c.advance m n) p (m.store .release c.thread c.index value) where
  mono i j hij hj := by
    change j < ((m.store .release c.thread c.index value).history c.index).length at hj
    rw [length_store_history, if_pos rfl] at hj
    by_cases hnew : j = (m.history c.index).length
    · have hj' : (c.advance m n).pos j = n := by simp [Party.advance, hnew]
      rw [hj']
      by_cases hi : i = j
      · rw [hi, hj']
      · rw [advance_pos n (by omega)]
        exact Nat.le_trans (h.pos_le_last (by omega)) hlow
    · rw [advance_pos n (by omega), advance_pos n (by omega)]
      exact h.mono i j hij (by omega)
  own := by
    change ((m.store .release c.thread c.index value).view c.thread).seen c.index + 1 =
      ((m.store .release c.thread c.index value).history c.index).length
    rw [store_view_self, length_store_history, if_pos rfl]
    simp [View.see]
  got_lt := by
    rw [store_history_of_ne .release value hne]
    exact h.got_lt
  got_le := by
    change c.got ≤ ((m.store .release c.thread c.index value).view c.thread).seen p.index
    rw [store_view_self]
    simpa [View.see, hne] using h.got_le

theorem Knows.watch (h : Knows p c m) (hthread : p.thread ≠ c.thread) (hne : p.index ≠ c.index)
    (n : Nat) (value : α) :
    Knows p (c.advance m n) (m.store .release c.thread c.index value) where
  mono := by
    rw [store_history_of_ne .release value hne]
    exact h.mono
  own := by
    rw [store_view_of_ne .release c.index value hthread, store_history_of_ne .release value hne]
    exact h.own
  got_lt := Nat.lt_of_lt_of_le h.got_lt (length_le_store .release c.index c.index value)
  got_le := by
    rw [store_view_of_ne .release c.index value hthread]
    exact h.got_le

-- A release of the party's own index hands over the cells up to its new position.
theorem Ring.publish (h : Ring cap p c m) {n : Nat} (value : α) (hlow : c.last m ≤ n)
    (hhigh : n ≤ p.pos c.got) :
    Ring cap p (c.advance m n) (m.store .release c.thread c.index value) := by
  have hold : (m.store .release c.thread c.index value).history p.index = m.history p.index :=
    store_history_of_ne .release value h.indices
  have hgot := advance_pos n h.producer.got_lt
  refine
    { h with
      producer := h.producer.watch h.threads h.indices n value
      consumer := h.consumer.publish h.indices value hlow
      tail_le := (advance_last n value).le.trans hhigh
      head_le := ?_
      free := fun q hq hq' => ?_
      full := fun q hq hq' => ?_
      heads := fun j message hj hmessage q hq hq' => ?_
      tails := fun j message hj hmessage q hq hq' => ?_
      valid := h.valid.store .release c.index value }
  · rw [hgot, last_store_of_ne .release _ value h.indices]
    exact h.head_le
  · rw [store_view_of_ne .release c.index value h.threads]
    rw [hgot] at hq'
    exact h.free q hq hq'
  · change Settled _ ((m.store .release c.thread c.index value).view c.thread) _
    rw [store_view_self]
    rw [hgot] at hq
    exact h.full q hq hq'
  · rw [hold] at hmessage
    exact h.heads j message hj hmessage q hq hq'
  · change ((m.store .release c.thread c.index value).history c.index)[j]? = some message
      at hmessage
    rw [store_history_self] at hmessage
    rw [hgot] at hq
    by_cases hnew : j < (m.history c.index).length
    · rw [List.getElem?_append_left hnew] at hmessage
      rw [advance_pos n hnew] at hq'
      exact h.tails j message hj hmessage q hq hq'
    · -- the new message carries what its thread knows
      have hj' : j = (m.history c.index).length := by
        have := (List.getElem?_eq_some_iff.mp hmessage).1
        rw [List.length_append, List.length_singleton] at this
        omega
      subst hj'
      obtain rfl : m.message .release c.thread c.index value = message := by simpa using hmessage
      have hn : (c.advance m n).pos (m.history c.index).length = n := by simp [Party.advance]
      rw [hn] at hq'
      exact h.full q hq (Nat.lt_of_lt_of_le hq' hhigh)

end Steps

-- The same steps of the producer, which the swapped ring has as those of a consumer.
section Producer

variable {cap : Nat} {p c : Party ι} {m m' : Memory ι Nat α β}

theorem Ring.touch_producer (h : Ring cap p c m) {q : Nat} (hlow : p.last m ≤ q)
    (hhigh : q < c.pos p.got + cap) (kind : Kind) :
    Ring cap p c (m.touch p.thread (q % cap) kind) :=
  (h.swap.touch hlow hhigh kind).unswap

-- The ring does not depend on what is in the cells.
theorem Ring.write_producer (h : Ring cap p c m) {q : Nat} (hlow : p.last m ≤ q)
    (hhigh : q < c.pos p.got + cap) (value : β) :
    Ring cap p c (m.writeCell p.thread (q % cap) value) :=
  let ht := h.touch_producer hlow hhigh .write
  { threads := ht.threads
    indices := ht.indices
    producer := ⟨ht.producer.mono, ht.producer.own, ht.producer.got_lt, ht.producer.got_le⟩
    consumer := ⟨ht.consumer.mono, ht.consumer.own, ht.consumer.got_lt, ht.consumer.got_le⟩
    tail_le := ht.tail_le
    head_le := ht.head_le
    free := ht.free
    full := ht.full
    heads := ht.heads
    tails := ht.tails
    clean := ht.clean
    valid := h.valid.writeCell _ value }

variable [DecidableEq ι]

theorem Ring.glance_producer (h : Ring cap p c m) {l : ι} {i : Nat} {value : α}
    (hl : l = p.index ∨ l = c.index) (hload : m.load .relaxed p.thread l i = some (value, m')) :
    Ring cap p c m' :=
  (h.swap.glance hl.symm hload).unswap

theorem Ring.acquire_producer (h : Ring cap p c m) {i : Nat} {value : α}
    (hload : m.load .acquire p.thread c.index i = some (value, m')) :
    Ring cap { p with got := i } c m' :=
  (h.swap.acquire hload).unswap

theorem Ring.publish_producer (h : Ring cap p c m) {n : Nat} (value : α) (hlow : p.last m ≤ n)
    (hhigh : n ≤ c.pos p.got + cap) :
    Ring cap (p.advance m n) c (m.store .release p.thread p.index value) :=
  (h.swap.publish value hlow hhigh).unswap

end Producer

section Start

-- Before the first access both parties stand at the same position.
theorem Ring.fresh (cap : Nat) {producer consumer : Nat} {head tail : ι}
    (hthreads : producer ≠ consumer) (hindices : head ≠ tail) (start : Nat) (initial : ι → α)
    (cell : Nat → β) :
    Ring cap ⟨producer, head, fun _ => start, 0⟩ ⟨consumer, tail, fun _ => start, 0⟩
      (Memory.fresh initial cell) where
  threads := hthreads
  indices := hindices
  producer := ⟨fun _ _ _ _ => Nat.le_refl _, rfl, Nat.zero_lt_one, Nat.le_refl _⟩
  consumer := ⟨fun _ _ _ _ => Nat.le_refl _, rfl, Nat.zero_lt_one, Nat.le_refl _⟩
  tail_le := Nat.le_refl _
  head_le := Nat.le_add_right _ _
  free _ _ _ := by intro a ha; cases ha
  full _ _ _ := by intro a ha; cases ha
  heads _ _ _ _ _ _ _ := by intro a ha; cases ha
  tails _ _ _ _ _ _ _ := by intro a ha; cases ha
  clean := rfl
  valid := fresh_valid initial cell

end Start

end Handoff
