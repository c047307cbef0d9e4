import Mathlib.Data.List.Forall2

namespace Delivery

variable {α β : Type*} {R : α → β → Prop} {sent : List α} {received : List β} {queue : List α}

-- What was taken out matches, in order, what was put in first. The rest is still queued.
def Delivered (R : α → β → Prop) (sent : List α) (received : List β) (queue : List α) : Prop :=
  ∃ taken, sent = taken ++ queue ∧ List.Forall₂ R taken received

theorem delivered_nil : Delivered R [] [] [] := ⟨[], rfl, .nil⟩

theorem Delivered.push (h : Delivered R sent received queue) (item : α) :
    Delivered R (sent ++ [item]) received (queue ++ [item]) := by
  obtain ⟨taken, rfl, hall⟩ := h
  exact ⟨taken, List.append_assoc .., hall⟩

theorem Delivered.pop {item : α} {got : β} (h : Delivered R sent received (item :: queue))
    (hr : R item got) : Delivered R sent (received ++ [got]) queue := by
  obtain ⟨taken, rfl, hall⟩ := h
  refine ⟨taken ++ [item], by simp, ?_⟩
  exact List.rel_append hall (.cons hr .nil)

theorem Delivered.kth (h : Delivered R sent received queue) {k : Nat} {got : β}
    (hk : received[k]? = some got) : ∃ item, sent[k]? = some item ∧ R item got := by
  obtain ⟨taken, rfl, hall⟩ := h
  obtain ⟨hlt, rfl⟩ := List.getElem?_eq_some_iff.mp hk
  have hlt' : k < taken.length := by rw [hall.length_eq]; exact hlt
  refine ⟨taken[k], ?_, hall.get hlt' hlt⟩
  rw [List.getElem?_append_left hlt', List.getElem?_eq_getElem hlt']

theorem Delivered.drop_eq (h : Delivered R sent received queue) :
    sent.drop received.length = queue := by
  obtain ⟨taken, rfl, hall⟩ := h
  rw [← hall.length_eq, List.drop_left]

-- What waits at the head is what the next receiver gets, or it still waits there.
theorem Delivered.next {item : α} {more rest : List α} {got : List β}
    (h : Delivered R sent received (item :: queue))
    (hlater : Delivered R (sent ++ more) (received ++ got) rest) :
    (∃ first, (received ++ got)[received.length]? = some first ∧ R item first) ∨
      (received ++ got)[received.length]? = none ∧ rest.head? = some item := by
  have hlen : received.length < sent.length := by
    have hdrop := congrArg List.length h.drop_eq
    simp only [List.length_drop, List.length_cons] at hdrop
    omega
  have hitem : (sent ++ more)[received.length]? = some item := by
    rw [List.getElem?_append_left hlen, ← List.head?_drop, h.drop_eq]
    rfl
  cases got with
  | nil =>
      right
      rw [List.append_nil] at hlater ⊢
      rw [← hlater.drop_eq, List.head?_drop]
      exact ⟨List.getElem?_eq_none (Nat.le_refl _), hitem⟩
  | cons first got =>
      left
      have hfirst : (received ++ first :: got)[received.length]? = some first := by
        rw [List.getElem?_append_right (Nat.le_refl _), Nat.sub_self]
        rfl
      obtain ⟨other, hother, hr⟩ := hlater.kth hfirst
      obtain rfl := Option.some.inj (hitem.symm.trans hother)
      exact ⟨first, hfirst, hr⟩

-- Items of one size are recovered from their concatenation.
theorem append_of_flatten {d : Nat} (hd : 0 < d) {xs ys : List (List α)} {rest : List α}
    (hxs : ∀ x ∈ xs, x.length = d) (hys : ∀ y ∈ ys, y.length = d)
    (h : ys.flatten = xs.flatten ++ rest) : ∃ zs, ys = xs ++ zs := by
  induction xs generalizing ys with
  | nil => exact ⟨ys, rfl⟩
  | cons x xs ih =>
      have hx : x.length = d := hxs x (List.mem_cons_self ..)
      cases ys with
      | nil =>
          have hlen := congrArg List.length h
          simp only [List.flatten_nil, List.flatten_cons, List.length_nil, List.length_append]
            at hlen
          omega
      | cons y ys =>
          have hy : y.length = d := hys y (List.mem_cons_self ..)
          simp only [List.flatten_cons, List.append_assoc] at h
          obtain ⟨rfl, hrest⟩ := List.append_inj h (hy.trans hx.symm)
          obtain ⟨zs, rfl⟩ := ih (fun z hz => hxs z (List.mem_cons_of_mem _ hz))
            (fun z hz => hys z (List.mem_cons_of_mem _ hz)) hrest
          exact ⟨zs, rfl⟩

end Delivery
