import Kbuf.Lib.ReleaseAcquire

namespace ReleaseAcquire

variable {ι κ α β : Type*}

-- A wait queue: who is on it, and what the thread that last held its lock knew.
structure Queue (ι : Type*) where
  waiters : List Nat
  view : View ι

-- What a thread knows once it holds the lock of a queue.
def Memory.locked (m : Memory ι κ α β) (me : Nat) (q : Queue ι) : View ι :=
  (m.view me).join q.view

-- The number of the newest store to a location.
def Memory.newest (m : Memory ι κ α β) (l : ι) : Nat := (m.history l).length - 1

-- Store number `i` to a location is of `value`.
def Stored (m : Memory ι κ α β) (l : ι) (i : Nat) (value : α) : Prop :=
  ∃ message, (m.history l)[i]? = some message ∧ message.value = value

-- A store does not know of later ones to its location.
def Dated (m : Memory ι κ α β) : Prop :=
  ∀ (l : ι) (i : Nat) (message : Message ι α), (m.history l)[i]? = some message →
    message.view.seen l ≤ i

-- The threads on a queue wait for what `writer` stores to `l`. Unless it still has to wake
-- them, the lock carries its newest store, and whoever is on the queue knows of that store.
structure Watched (m : Memory ι κ α β) (q : Queue ι) (l : ι) (writer me : Nat) (owes : Prop) :
    Prop where
  own : m.newest l ≤ (m.view writer).seen l
  lock : owes ∨ m.newest l ≤ q.view.seen l
  waiter : me ∈ q.waiters → owes ∨ m.newest l ≤ (m.view me).seen l

section Views

variable {m : Memory ι κ α β} {q : Queue ι} {l : ι} {me : Nat}

theorem seen_le_locked (m : Memory ι κ α β) (me : Nat) (q : Queue ι) (l : ι) :
    (m.view me).seen l ≤ (m.locked me q).seen l :=
  Nat.le_max_left ..

theorem lock_le_locked (m : Memory ι κ α β) (me : Nat) (q : Queue ι) (l : ι) :
    q.view.seen l ≤ (m.locked me q).seen l :=
  Nat.le_max_right ..

theorem seen_le_setView {v : View ι} (hv : ∀ l, (m.view me).seen l ≤ v.seen l) (t : Nat) (l : ι) :
    (m.view t).seen l ≤ ((m.setView me v).view t).seen l := by
  by_cases ht : t = me
  · subst ht
    rw [setView_view_self]
    exact hv l
  · exact Nat.le_of_eq (by rw [setView_view_of_ne v ht])

theorem clock_le_setView {v : View ι} (hv : ∀ k, (m.view me).clock k ≤ v.clock k) (t k : Nat) :
    (m.view t).clock k ≤ ((m.setView me v).view t).clock k := by
  by_cases ht : t = me
  · subst ht
    rw [setView_view_self]
    exact hv k
  · exact Nat.le_of_eq (by rw [setView_view_of_ne v ht])

-- A lock hands on views that speak of stores that have been made.
theorem Memory.Valid.locked (h : m.Valid) (hq : ∀ l, q.view.seen l < (m.history l).length)
    (me : Nat) (l : ι) : (m.locked me q).seen l < (m.history l).length :=
  Nat.max_lt.mpr ⟨h.view me l, hq l⟩

end Views

section Dated

variable {m m' : Memory ι κ α β}

theorem dated_fresh (initial : ι → α) (cell : κ → β) : Dated (Memory.fresh initial cell) := by
  intro l i message hmessage
  rw [List.mem_singleton.mp (List.mem_of_getElem? hmessage)]
  exact Nat.zero_le i

theorem Dated.of_history_eq (h : Dated m) (hsame : m'.history = m.history) : Dated m' := by
  intro l i message hmessage
  rw [hsame] at hmessage
  exact h l i message hmessage

theorem Dated.store [DecidableEq ι] (h : Dated m) (order : StoreOrder) (me : Nat) (l : ι)
    (value : α) : Dated (m.store order me l value) := by
  intro l' i message hmessage
  by_cases hl : l' = l
  · subst hl
    rw [store_history_self] at hmessage
    by_cases hold : i < (m.history l').length
    · rw [List.getElem?_append_left hold] at hmessage
      exact h l' i message hmessage
    · rw [List.getElem?_append_right (by omega)] at hmessage
      rw [List.mem_singleton.mp (List.mem_of_getElem? hmessage)]
      simp only [Memory.message, View.see, Function.update_self]
      omega
  · rw [store_history_of_ne order value hl] at hmessage
    exact h l' i message hmessage

end Dated

section Stored

variable {m m' : Memory ι κ α β} {l : ι} {i : Nat} {value other : α}

theorem Stored.of_history_eq (h : Stored m l i value) (hsame : m'.history l = m.history l) :
    Stored m' l i value := by
  obtain ⟨message, hmessage, hvalue⟩ := h
  exact ⟨message, hsame ▸ hmessage, hvalue⟩

variable [DecidableEq ι]

-- Later stores do not change what an earlier one was.
theorem Stored.store (h : Stored m l i value) (order : StoreOrder) (me : Nat) (l' : ι) (new : α) :
    Stored (m.store order me l' new) l i value := by
  obtain ⟨message, hmessage, hvalue⟩ := h
  refine ⟨message, ?_, hvalue⟩
  by_cases hl : l = l'
  · subst hl
    have hlt := (List.getElem?_eq_some_iff.mp hmessage).1
    rw [store_history_self, List.getElem?_append_left hlt]
    exact hmessage
  · rw [store_history_of_ne order new hl]
    exact hmessage

-- What a load returns is what its thread has then seen of the location.
theorem load_stored (hdated : Dated m) {order : LoadOrder} {me : Nat}
    (h : m.load order me l i = some (value, m')) : Stored m' l ((m'.view me).seen l) value := by
  obtain ⟨message, -, hmessage, rfl, rfl⟩ := load_eq_some h
  refine ⟨message, ?_, rfl⟩
  rw [setView_history, setView_view_self]
  have hle := hdated l i message hmessage
  have hseen : (if order = .acquire then ((m.view me).see l i).join message.view
      else (m.view me).see l i).seen l = i := by
    split
    · simp only [View.join, View.see, Function.update_self]
      omega
    · simp [View.see]
  rw [hseen]
  exact hmessage

-- A thread that has seen the newest store to a location reads that one.
theorem load_stored_newest {order : LoadOrder} {me : Nat}
    (hown : (m.view me).seen l + 1 = (m.history l).length)
    (h : m.load order me l i = some (value, m')) : Stored m l (m.newest l) value := by
  obtain ⟨message, hseen, hmessage, rfl, -⟩ := load_eq_some h
  have hlt := (List.getElem?_eq_some_iff.mp hmessage).1
  obtain rfl : i = m.newest l := by
    rw [Memory.newest]
    omega
  exact ⟨message, hmessage, rfl⟩

-- A relaxed load of one location is no news of another one.
theorem load_seen_of_ne {me j : Nat} {l' : ι} (h : m.load .relaxed me l' j = some (value, m'))
    (hl : l ≠ l') : (m'.view me).seen l = (m.view me).seen l := by
  obtain ⟨message, -, -, -, rfl⟩ := load_eq_some h
  rw [setView_view_self, if_neg (by decide)]
  simp [View.see, hl]

end Stored

section Storeless

-- A step of `me` that stores to no location.
structure Storeless (me : Nat) (m m' : Memory ι κ α β) : Prop where
  history : m'.history = m.history
  others : ∀ t, t ≠ me → m'.view t = m.view t
  seen : ∀ l, (m.view me).seen l ≤ (m'.view me).seen l

variable {m m' : Memory ι κ α β} {me : Nat}

theorem Storeless.refl (me : Nat) (m : Memory ι κ α β) : Storeless me m m :=
  ⟨rfl, fun _ _ => rfl, fun _ => Nat.le_refl _⟩

theorem Storeless.seen_le (h : Storeless me m m') (t : Nat) (l : ι) :
    (m.view t).seen l ≤ (m'.view t).seen l := by
  by_cases ht : t = me
  · subst ht
    exact h.seen l
  · exact Nat.le_of_eq (by rw [h.others t ht])

theorem storeless_setView {v : View ι} (hv : ∀ l, (m.view me).seen l ≤ v.seen l) :
    Storeless me m (m.setView me v) where
  history := rfl
  others _ ht := setView_view_of_ne v ht
  seen := seen_le_setView hv me

theorem storeless_touch [DecidableEq κ] (me : Nat) (m : Memory ι κ α β) (k : κ) (kind : Kind) :
    Storeless me m (m.touch me k kind) where
  history := rfl
  others _ ht := touch_view_of_ne ht kind
  seen l := by
    rw [touch_view_self]
    exact Nat.le_refl _

theorem storeless_writeCell [DecidableEq κ] (me : Nat) (m : Memory ι κ α β) (k : κ) (value : β) :
    Storeless me m (m.writeCell me k value) :=
  have h := storeless_touch me m k .write
  ⟨h.history, h.others, h.seen⟩

theorem storeless_load [DecidableEq ι] {order : LoadOrder} {l : ι} {i : Nat} {value : α}
    (h : m.load order me l i = some (value, m')) : Storeless me m m' := by
  obtain ⟨message, hseen, -, -, rfl⟩ := load_eq_some h
  apply storeless_setView
  intro l'
  have hsee : (m.view me).seen l' ≤ ((m.view me).see l i).seen l' := by
    by_cases hl : l' = l
    · subst hl
      simpa [View.see] using hseen
    · simp [View.see, hl]
  split
  · exact Nat.le_trans hsee (Nat.le_max_left ..)
  · exact hsee

theorem newest_of_store_ne [DecidableEq ι] (order : StoreOrder) {l l' : ι} (value : α)
    (hl : l ≠ l') : (m.store order me l' value).newest l = m.newest l := by
  rw [Memory.newest, store_history_of_ne order value hl]
  rfl

theorem seen_store_of_ne [DecidableEq ι] (order : StoreOrder) (t : Nat) {l l' : ι} (value : α)
    (hl : l ≠ l') : ((m.store order me l' value).view t).seen l = (m.view t).seen l := by
  by_cases ht : t = me
  · subst ht
    rw [store_view_self]
    simp [View.see, hl]
  · rw [store_view_of_ne order l' value ht]

end Storeless

section Watched

variable {m m' : Memory ι κ α β} {q : Queue ι} {l : ι} {writer me : Nat} {owes owes' : Prop}

theorem Watched.frame (h : Watched m q l writer me owes) (hhistory : m'.history l = m.history l)
    (hview : ∀ t, (m.view t).seen l ≤ (m'.view t).seen l) (howes : owes → owes') :
    Watched m' q l writer me owes' := by
  have hnewest : m'.newest l = m.newest l := by rw [Memory.newest, hhistory]; rfl
  refine ⟨?_, ?_, fun hmem => ?_⟩
  · rw [hnewest]
    exact Nat.le_trans h.own (hview writer)
  · rw [hnewest]
    exact h.lock.imp_left howes
  · rw [hnewest]
    exact (h.waiter hmem).imp howes fun hle => Nat.le_trans hle (hview me)

-- Whoever takes the lock learns what its last holder knew. So does a thread that puts itself
-- on the queue.
theorem Watched.hold (h : Watched m q l writer me owes) (t : Nat) {waiters : List Nat}
    (hwaiters : me ∈ waiters → me ∈ q.waiters ∨ t = me) :
    Watched (m.setView t (m.locked t q)) ⟨waiters, m.locked t q⟩ l writer me owes := by
  have hgrow := seen_le_setView (m := m) (seen_le_locked m t q)
  refine ⟨Nat.le_trans h.own (hgrow writer l), ?_, fun hmem => ?_⟩
  · exact h.lock.imp_right fun hle => Nat.le_trans hle (lock_le_locked m t q l)
  · rcases hwaiters hmem with hold | rfl
    · exact (h.waiter hold).imp_right fun hle => Nat.le_trans hle (hgrow me l)
    · refine h.lock.imp_right fun hle => ?_
      rw [setView_view_self]
      exact Nat.le_trans hle (lock_le_locked m t q l)

-- The writer empties the queue. What it has stored so far is then known to whoever comes.
theorem Watched.wake (h : Watched m q l writer me owes) :
    Watched (m.setView writer (m.locked writer q)) ⟨[], m.locked writer q⟩ l writer me owes' := by
  have hgrow := seen_le_setView (m := m) (seen_le_locked m writer q)
  refine ⟨Nat.le_trans h.own (hgrow writer l), Or.inr ?_, fun hmem => ?_⟩
  · exact Nat.le_trans h.own (seen_le_locked m writer q l)
  · cases hmem

theorem watched_publish [DecidableEq ι] (q : Queue ι) (l : ι) (writer me : Nat)
    (order : StoreOrder) (value : α) (howes : owes) :
    Watched (m.store order writer l value) q l writer me owes := by
  refine ⟨?_, Or.inl howes, fun _ => Or.inl howes⟩
  rw [Memory.newest, store_history_self, store_view_self]
  simp [View.see]

-- A thread on the queue that nobody is about to wake has seen the newest store.
theorem Watched.seen_eq (h : Watched m q l writer me owes) (hvalid : m.Valid)
    (hmem : me ∈ q.waiters) (hnot : ¬owes) : (m.view me).seen l = m.newest l := by
  have hle := (h.waiter hmem).resolve_left hnot
  have hlt := hvalid.view me l
  rw [Memory.newest] at hle ⊢
  omega

end Watched

end ReleaseAcquire
