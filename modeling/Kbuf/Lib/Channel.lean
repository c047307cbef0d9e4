import Kbuf.Lib.Handoff

namespace Handoff

open ReleaseAcquire

variable {ι α β : Type*}

section Labels

variable {label : Nat → α} {p : Party ι} {m m' : Memory ι Nat α β}

-- What is stored in the party's index is the label of the position it stands for.
def Labels (label : Nat → α) (p : Party ι) (m : Memory ι Nat α β) : Prop :=
  ∀ j message, (m.history p.index)[j]? = some message → message.value = label (p.pos j)

theorem Labels.of_history_eq (h : Labels label p m)
    (hsame : m'.history p.index = m.history p.index) : Labels label p m' := by
  intro j message hmessage
  rw [hsame] at hmessage
  exact h j message hmessage

variable [DecidableEq ι]

-- A load returns the label of the position it has read.
theorem Labels.load (h : Labels label p m) {order : LoadOrder} {me i : Nat} {value : α}
    (hload : m.load order me p.index i = some (value, m')) :
    i < (m.history p.index).length ∧ value = label (p.pos i) := by
  obtain ⟨message, -, hmessage, rfl, -⟩ := load_eq_some hload
  exact ⟨(List.getElem?_eq_some_iff.mp hmessage).1, h i message hmessage⟩

-- One's own index is never stale.
theorem Labels.load_own (h : Labels label p m) {c : Party ι} (hknows : Knows p c m)
    {order : LoadOrder} {i : Nat} {value : α}
    (hload : m.load order p.thread p.index i = some (value, m')) : value = label (p.last m) := by
  obtain ⟨hlt, hvalue⟩ := h.load hload
  obtain ⟨-, hseen, -, -, -⟩ := load_eq_some hload
  have hown := hknows.own
  obtain rfl : i = (m.history p.index).length - 1 := by omega
  exact hvalue

theorem Labels.publish (h : Labels label p m) (n : Nat) :
    Labels label (p.advance m n) (m.store .release p.thread p.index (label n)) := by
  intro j message hmessage
  change ((m.store .release p.thread p.index (label n)).history p.index)[j]? = some message
    at hmessage
  rw [store_history_self] at hmessage
  by_cases hnew : j < (m.history p.index).length
  · rw [List.getElem?_append_left hnew] at hmessage
    rw [advance_pos n hnew]
    exact h j message hmessage
  · rw [List.getElem?_append_right (by omega)] at hmessage
    obtain ⟨hj, hvalue⟩ := List.getElem?_eq_some_iff.mp hmessage
    rw [List.length_singleton] at hj
    obtain rfl : j = (m.history p.index).length := by omega
    simp [← hvalue, Party.advance, Memory.message]

end Labels

section Channel

-- A ring whose indices carry the labels of their positions.
structure Channel (label : Nat → α) (cap : Nat) (p c : Party ι) (m : Memory ι Nat α β) : Prop
    extends Ring cap p c m where
  head_label : Labels label p m
  tail_label : Labels label c m

variable {label : Nat → α} {cap : Nat} {p c : Party ι} {m m' : Memory ι Nat α β}

theorem Channel.fresh (cap : Nat) {producer consumer : Nat} {head tail : ι}
    (hthreads : producer ≠ consumer) (hindices : head ≠ tail) (start : Nat) (cell : Nat → β) :
    Channel label cap ⟨producer, head, fun _ => start, 0⟩ ⟨consumer, tail, fun _ => start, 0⟩
      (Memory.fresh (fun _ => label start) cell) := by
  have hlabel (l : ι) (me : Nat) : Labels label ⟨me, l, fun _ => start, 0⟩
      (Memory.fresh (fun _ => label start) cell) := by
    intro j message hmessage
    rw [List.mem_singleton.mp (List.mem_of_getElem? hmessage)]
  exact ⟨Ring.fresh cap hthreads hindices start _ cell, hlabel head producer, hlabel tail consumer⟩

theorem Channel.grow (h : Channel label cap p c m) (hgrow : Grows m m') :
    Channel label cap p c m' :=
  ⟨h.toRing.grow hgrow, h.head_label.of_history_eq (congrFun hgrow.history _),
    h.tail_label.of_history_eq (congrFun hgrow.history _)⟩

theorem Channel.touch (h : Channel label cap p c m) {q : Nat} (hlow : c.last m ≤ q)
    (hhigh : q < p.pos c.got) (kind : Kind) :
    Channel label cap p c (m.touch c.thread (q % cap) kind) :=
  ⟨h.toRing.touch hlow hhigh kind, h.head_label, h.tail_label⟩

theorem Channel.write (h : Channel label cap p c m) {q : Nat} (hlow : p.last m ≤ q)
    (hhigh : q < c.pos p.got + cap) (value : β) :
    Channel label cap p c (m.writeCell p.thread (q % cap) value) :=
  ⟨h.write_producer hlow hhigh value, h.head_label, h.tail_label⟩

variable [DecidableEq ι]

section Consumer

variable {i : Nat} {value : α}

theorem Channel.load_tail (h : Channel label cap p c m)
    (hload : m.load .relaxed c.thread c.index i = some (value, m')) :
    Channel label cap p c m' ∧ value = label (c.last m) := by
  have hsame := load_history hload
  refine ⟨⟨h.glance (.inr rfl) hload, h.head_label.of_history_eq ?_,
    h.tail_label.of_history_eq ?_⟩, h.tail_label.load_own h.consumer hload⟩
  all_goals rw [hsame]

-- A stale head still lies between what the consumer has acquired and the newest one.
theorem Channel.peek_head (h : Channel label cap p c m)
    (hload : m.load .relaxed c.thread p.index i = some (value, m')) :
    Channel label cap p c m' ∧ value = label (p.pos i) ∧ p.pos c.got ≤ p.pos i ∧
      p.pos i ≤ p.last m := by
  have hsame := load_history hload
  obtain ⟨hi, hvalue⟩ := h.head_label.load hload
  obtain ⟨-, hseen, -⟩ := load_eq_some hload
  refine ⟨⟨h.glance (.inl rfl) hload, h.head_label.of_history_eq ?_,
    h.tail_label.of_history_eq ?_⟩, hvalue,
    h.producer.mono _ _ (h.consumer.got_le.trans hseen) hi, h.producer.pos_le_last hi⟩
  all_goals rw [hsame]

theorem Channel.acquire_head (h : Channel label cap p c m)
    (hload : m.load .acquire c.thread p.index i = some (value, m')) :
    Channel label cap p { c with got := i } m' ∧ value = label (p.pos i) ∧
      p.pos c.got ≤ p.pos i ∧ p.pos i ≤ p.last m := by
  have hsame := load_history hload
  obtain ⟨hi, hvalue⟩ := h.head_label.load hload
  obtain ⟨-, hseen, -⟩ := load_eq_some hload
  refine ⟨⟨h.acquire hload, h.head_label.of_history_eq ?_,
    Labels.of_history_eq (p := { c with got := i }) h.tail_label ?_⟩, hvalue,
    h.producer.mono _ _ (h.consumer.got_le.trans hseen) hi, h.producer.pos_le_last hi⟩
  all_goals rw [hsame]

theorem Channel.publish_tail (h : Channel label cap p c m) {n : Nat} (hlow : c.last m ≤ n)
    (hhigh : n ≤ p.pos c.got) :
    Channel label cap p (c.advance m n) (m.store .release c.thread c.index (label n)) :=
  ⟨h.publish _ hlow hhigh, h.head_label.of_history_eq (store_history_of_ne .release _ h.indices),
    h.tail_label.publish n⟩

end Consumer

section Producer

variable {i : Nat} {value : α}

theorem Channel.load_head (h : Channel label cap p c m)
    (hload : m.load .relaxed p.thread p.index i = some (value, m')) :
    Channel label cap p c m' ∧ value = label (p.last m) := by
  have hsame := load_history hload
  refine ⟨⟨h.glance_producer (.inl rfl) hload, h.head_label.of_history_eq ?_,
    h.tail_label.of_history_eq ?_⟩, h.head_label.load_own h.producer hload⟩
  all_goals rw [hsame]

theorem Channel.peek_tail (h : Channel label cap p c m)
    (hload : m.load .relaxed p.thread c.index i = some (value, m')) :
    Channel label cap p c m' ∧ value = label (c.pos i) ∧ c.pos p.got ≤ c.pos i ∧
      c.pos i ≤ c.last m := by
  have hsame := load_history hload
  obtain ⟨hi, hvalue⟩ := h.tail_label.load hload
  obtain ⟨-, hseen, -⟩ := load_eq_some hload
  refine ⟨⟨h.glance_producer (.inr rfl) hload, h.head_label.of_history_eq ?_,
    h.tail_label.of_history_eq ?_⟩, hvalue,
    h.consumer.mono _ _ (h.producer.got_le.trans hseen) hi, h.consumer.pos_le_last hi⟩
  all_goals rw [hsame]

theorem Channel.acquire_tail (h : Channel label cap p c m)
    (hload : m.load .acquire p.thread c.index i = some (value, m')) :
    Channel label cap { p with got := i } c m' ∧ value = label (c.pos i) ∧
      c.pos p.got ≤ c.pos i ∧ c.pos i ≤ c.last m := by
  have hsame := load_history hload
  obtain ⟨hi, hvalue⟩ := h.tail_label.load hload
  obtain ⟨-, hseen, -⟩ := load_eq_some hload
  refine ⟨⟨h.acquire_producer hload,
    Labels.of_history_eq (p := { p with got := i }) h.head_label ?_,
    h.tail_label.of_history_eq ?_⟩, hvalue,
    h.consumer.mono _ _ (h.producer.got_le.trans hseen) hi, h.consumer.pos_le_last hi⟩
  all_goals rw [hsame]

theorem Channel.publish_head (h : Channel label cap p c m) {n : Nat} (hlow : p.last m ≤ n)
    (hhigh : n ≤ c.pos p.got + cap) :
    Channel label cap (p.advance m n) c (m.store .release p.thread p.index (label n)) :=
  ⟨h.publish_producer _ hlow hhigh, h.head_label.publish n,
    h.tail_label.of_history_eq (store_history_of_ne .release _ h.indices.symm)⟩

end Producer

end Channel

section Contents

variable {cap : Nat} {p c : Party ι} {m : Memory ι Nat α β}

-- The cells that have been published and not yet given back, oldest first.
def pending (cap : Nat) (p c : Party ι) (m : Memory ι Nat α β) : List β :=
  Circular.window m.cell cap (c.last m) (p.last m - c.last m)

theorem Ring.last_le (h : Ring cap p c m) : c.last m ≤ p.last m :=
  Nat.le_trans h.tail_le (h.producer.pos_le_last h.consumer.got_lt)

theorem Ring.last_le_add (h : Ring cap p c m) : p.last m ≤ c.last m + cap :=
  Nat.le_trans h.head_le (Nat.add_le_add_right (h.consumer.pos_le_last h.producer.got_lt) cap)

theorem Ring.length_pending_le (h : Ring cap p c m) : (pending cap p c m).length ≤ cap := by
  have hle := h.last_le_add
  rw [pending, Circular.length_window]
  omega

-- A cell that the producer may write to is not one of those.
theorem Ring.window_writeCell (h : Ring cap p c m) (me : Nat) {q len : Nat} (value : β)
    (hlow : p.last m ≤ q) (hhigh : q < c.pos p.got + cap) (hlen : len ≤ p.last m - c.last m) :
    Circular.window (m.writeCell me (q % cap) value).cell cap (c.last m) len =
      Circular.window m.cell cap (c.last m) len := by
  have hle := h.last_le
  have htail := h.consumer.pos_le_last h.producer.got_lt
  apply Circular.window_eq_of_eq_off cap (c.last m) len (q - c.last m) (by omega) (by omega)
  intro k hk
  rw [Nat.add_sub_cancel' (by omega)] at hk
  simp [Memory.writeCell, hk]

variable [DecidableEq ι]

theorem Ring.pending_publish_producer (h : Ring cap p c m) {n : Nat} (value : α)
    (hlow : p.last m ≤ n) :
    pending cap (p.advance m n) c (m.store .release p.thread p.index value) =
      pending cap p c m ++ Circular.window m.cell cap (p.last m) (n - p.last m) := by
  have hle := h.last_le
  have hc := last_store_of_ne (m := m) .release p.thread value h.indices.symm
  have hn : n - c.last m = p.last m - c.last m + (n - p.last m) := by omega
  rw [pending, pending, advance_last, hc, hn, Circular.window_add, Nat.add_sub_cancel' hle]
  rfl

theorem Ring.pending_publish (h : Ring cap p c m) {n : Nat} (value : α)
    (hlow : c.last m ≤ n) (hhigh : n ≤ p.last m) :
    pending cap p c m = Circular.window m.cell cap (c.last m) (n - c.last m) ++
      pending cap p (c.advance m n) (m.store .release c.thread c.index value) := by
  have hp := last_store_of_ne (m := m) .release c.thread value h.indices
  have hn : p.last m - c.last m = n - c.last m + (p.last m - n) := by omega
  rw [pending, pending, advance_last, hp, hn, Circular.window_add, Nat.add_sub_cancel' hlow]
  rfl

end Contents

end Handoff
