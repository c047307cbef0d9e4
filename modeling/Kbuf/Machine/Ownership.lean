import Kbuf.Machine.Heap

namespace Kbuf

open Interleaving

-- The array that a resize has to free or to hand to the device.
def ResizePc.owned : ResizePc → Option Nat
  | .lock ptr | .swap ptr | .unlockBusy ptr | .freeNew ptr => some ptr
  | .unlock old | .freeOld old => some old
  | .check | .alloc | .wake => none

def Local.owned : Local → Option Nat
  | .resize _ pc => pc.owned
  | _ => none

-- The device and the resizes own different live arrays.
structure OwnInv (s : System) : Prop where
  slotsPtr_lt : s.shared.slotsPtr < s.shared.nextPtr
  slotsPtr_live : s.shared.slotsPtr ∈ s.shared.live
  owned_lt : ∀ p ptr, (s.locals p).owned = some ptr → ptr < s.shared.nextPtr
  owned_ne : ∀ p ptr, (s.locals p).owned = some ptr → ptr ≠ s.shared.slotsPtr
  owned_live : ∀ p ptr, (s.locals p).owned = some ptr → ptr ∈ s.shared.live
  owned_inj : ∀ p q ptr, (s.locals p).owned = some ptr → (s.locals q).owned = some ptr → p = q

section Steps

variable {w w' : World} {here next : Local} {me : Nat}

inductive OwnEffect (w : World) (here : Local) (w' : World) (next : Local) : Prop
  | keep (h : next.owned = here.owned ∨ next.owned = none) (hptr : w'.slotsPtr = w.slotsPtr)
      (hnext : w'.nextPtr = w.nextPtr) (hlive : w'.live = w.live)
  | alloc (h : next.owned = some w.nextPtr) (hptr : w'.slotsPtr = w.slotsPtr)
      (hnext : w'.nextPtr = w.nextPtr + 1) (hlive : w'.live = w.nextPtr :: w.live)
  | swap (ptr : Nat) (hhere : here.owned = some ptr) (h : next.owned = some w.slotsPtr)
      (hptr : w'.slotsPtr = ptr) (hnext : w'.nextPtr = w.nextPtr) (hlive : w'.live = w.live)
  | free (ptr : Nat) (hhere : here.owned = some ptr) (h : next.owned = none)
      (hptr : w'.slotsPtr = w.slotsPtr) (hnext : w'.nextPtr = w.nextPtr)
      (hlive : w'.live = w.live.erase ptr)

theorem WaitMove.own_effect {wq : Wq} {cond : Dev → Bool} {pc : WaitPc} {out : WaitNext}
    (hw : WaitMove wq cond me w pc w' out) (h : Waiting out wq here next) :
    OwnEffect w here w' next := by
  have hnone : next.owned = none := by cases h <;> cases out <;> rfl
  obtain ⟨waiters, rfl⟩ := hw.frame
  cases wq <;> exact .keep (Or.inr hnone) rfl rfl rfl

theorem Move.own_effect {choice : Choice} (h : Move me w choice here w' next) :
    OwnEffect w here w' next := by
  cases h with
  | @enter _ request _ => cases request <;> exact .keep (Or.inr rfl) rfl rfl rfl
  | readSampleSpsc | readSampleBlocking | writeSampleSpsc | writeSampleBlocking =>
      exact .keep (Or.inr rfl) rfl rfl rfl
  | readBlocking h =>
      cases h with
      | wait hw => exact hw.own_effect (.readBlocking ..)
      | @consume =>
          obtain ⟨log, hw⟩ := consumeStep_world w me _
          rw [hw]
          exact .keep (Or.inr rfl) rfl rfl rfl
      | lock | lockSignal | again | sleep | ready | unlockSleep | unlockOk | unlockError | wake =>
          exact .keep (Or.inr rfl) rfl rfl rfl
  | writeBlocking h =>
      cases h with
      | wait hw => exact hw.own_effect (.writeBlocking ..)
      | @produce =>
          obtain ⟨log, hw⟩ := produceStep_world w me _
          rw [hw]
          exact .keep (Or.inr rfl) rfl rfl rfl
      | lock | lockSignal | clamp | again | sleep | ready | unlockSleep | relock | relockSignal
      | unlockOk | unlockError | wake => exact .keep (Or.inr rfl) rfl rfl rfl
  | readSpsc h =>
      cases h with
      | wait hw => exact hw.own_effect (.readSpsc ..)
      | empty | again | block | ready | sleep | consume | len | copyByte | copyFault | copyDone
      | publish | bytesLoad | bytesStore | msgsLoad | msgsStore | trace | wake =>
          exact .keep (Or.inr rfl) rfl rfl rfl
  | writeSpsc h =>
      cases h with
      | wait hw => exact hw.own_effect (.writeSpsc ..)
      | clamp | full | again | block | ready | sleep | produce | copyByte | copyFault | copyDone
      | setLen | publish | bytesLoad | bytesStore | msgsLoad | msgsStore | occ | peakHigher
      | peakKept | peakStore | wake => exact .keep (Or.inr rfl) rfl rfl rfl
  | resize h =>
      cases h with
      | reject | accept | nomem | wake => exact .keep (Or.inr rfl) rfl rfl rfl
      | alloc => exact .alloc rfl rfl rfl rfl
      | lock | busy | unlockBusy | unlock => exact .keep (Or.inl rfl) rfl rfl rfl
      | swap => exact .swap _ rfl rfl rfl rfl rfl
      | freeNew | freeOld => exact .free _ rfl rfl rfl rfl rfl
  | smode h => cases h <;> exact .keep (Or.inr rfl) rfl rfl rfl
  | reset h => cases h <;> exact .keep (Or.inr rfl) rfl rfl rfl
  | getstats h => cases h <;> exact .keep (Or.inr rfl) rfl rfl rfl
  | poll h => cases h <;> exact .keep (Or.inr rfl) rfl rfl rfl

end Steps

section Runs

variable {s t : System}

-- An array that is live and not the one of the device.
structure World.Owned (w : World) (ptr : Nat) : Prop where
  lt : ptr < w.nextPtr
  ne : ptr ≠ w.slotsPtr
  live : ptr ∈ w.live

theorem OwnInv.owned (h : OwnInv s) {p ptr : Nat} (ho : (s.locals p).owned = some ptr) :
    s.shared.Owned ptr :=
  ⟨h.owned_lt p ptr ho, h.owned_ne p ptr ho, h.owned_live p ptr ho⟩

-- What a step has to show: its own array is nobody else's, and the others keep theirs.
theorem OwnInv.put {w : World} {next : Local} {me : Nat} (hinv : OwnInv s)
    (hlt : w.slotsPtr < w.nextPtr) (hlive : w.slotsPtr ∈ w.live)
    (hself : ∀ ptr, next.owned = some ptr → w.Owned ptr)
    (halone : ∀ ptr, next.owned = some ptr → ∀ q, q ≠ me → (s.locals q).owned ≠ some ptr)
    (hothers : ∀ q, q ≠ me → ∀ ptr, (s.locals q).owned = some ptr → w.Owned ptr) :
    OwnInv (s.put me (w, next)) := by
  have howned (p ptr : Nat) (ho : ((s.put me (w, next)).locals p).owned = some ptr) :
      w.Owned ptr :=
    State.forall_put (P := fun _ (here : Local) => ∀ ptr, here.owned = some ptr → w.Owned ptr)
      hself hothers p ptr ho
  refine ⟨hlt, hlive, fun p ptr ho => (howned p ptr ho).lt, fun p ptr ho => (howned p ptr ho).ne,
    fun p ptr ho => (howned p ptr ho).live, fun p q ptr hp hq => ?_⟩
  by_cases hpme : p = me
  · by_cases hqme : q = me
    · rw [hpme, hqme]
    · rw [hpme, State.put_locals_self] at hp
      rw [State.put_locals_of_ne _ _ hqme] at hq
      exact absurd hq (halone ptr hp q hqme)
  · rw [State.put_locals_of_ne _ _ hpme] at hp
    by_cases hqme : q = me
    · rw [hqme, State.put_locals_self] at hq
      exact absurd hp (halone ptr hq p hpme)
    · rw [State.put_locals_of_ne _ _ hqme] at hq
      exact hinv.owned_inj p q ptr hp hq

theorem ownInv_step {act : Act Choice} (hinv : OwnInv s) (h : step driver s act = some t) :
    OwnInv t := by
  obtain ⟨w, next, hmove, rfl⟩ := step_move h
  have hlt := hinv.slotsPtr_lt
  have hlive := hinv.slotsPtr_live
  cases hmove.own_effect with
  | keep hown hptr hnext hl =>
      have hback (ptr : Nat) (hn : next.owned = some ptr) :
          (s.locals act.pid).owned = some ptr := by
        rcases hown with ho | ho
        · rw [← ho]
          exact hn
        · rw [ho] at hn
          cases hn
      have hkeep {ptr : Nat} (ho : s.shared.Owned ptr) : w.Owned ptr :=
        ⟨hnext ▸ ho.lt, hptr ▸ ho.ne, hl ▸ ho.live⟩
      refine hinv.put (by rw [hptr, hnext]; exact hlt) (by rw [hptr, hl]; exact hlive)
        (fun ptr hn => hkeep (hinv.owned (hback ptr hn))) (fun ptr hn q hq ho => hq ?_)
        fun q _ ptr ho => hkeep (hinv.owned ho)
      exact hinv.owned_inj q act.pid ptr ho (hback ptr hn)
  | alloc hn hptr hnext hl =>
      refine hinv.put (by rw [hptr, hnext]; omega)
        (by rw [hptr, hl]; exact List.mem_cons_of_mem _ hlive) (fun ptr ho => ?_)
        (fun ptr ho q _ hq => ?_) fun q _ ptr ho => ?_
      · obtain rfl := Option.some.inj (hn.symm.trans ho)
        exact ⟨by omega, by rw [hptr]; exact Nat.ne_of_gt hlt, by rw [hl]; exact List.mem_cons_self⟩
      · obtain rfl := Option.some.inj (hn.symm.trans ho)
        exact Nat.lt_irrefl _ (hinv.owned_lt q _ hq)
      · obtain ⟨holt, hone, holive⟩ := hinv.owned ho
        exact ⟨by omega, by rw [hptr]; exact hone, by rw [hl]; exact List.mem_cons_of_mem _ holive⟩
  | swap old hhere hn hptr hnext hl =>
      have hold := hinv.owned hhere
      refine hinv.put (by rw [hptr, hnext]; exact hold.lt) (by rw [hptr, hl]; exact hold.live)
        (fun ptr ho => ?_) (fun ptr ho q _ hq => ?_) fun q hq ptr ho => ?_
      · obtain rfl := Option.some.inj (hn.symm.trans ho)
        exact ⟨by rw [hnext]; exact hlt, by rw [hptr]; exact hold.ne.symm, by rw [hl]; exact hlive⟩
      · obtain rfl := Option.some.inj (hn.symm.trans ho)
        exact hinv.owned_ne q _ hq rfl
      · obtain ⟨holt, -, holive⟩ := hinv.owned ho
        refine ⟨by rw [hnext]; exact holt, ?_, by rw [hl]; exact holive⟩
        rw [hptr]
        rintro rfl
        exact hq (hinv.owned_inj _ _ _ ho hhere)
  | free old hhere hn hptr hnext hl =>
      have hnone (ptr : Nat) : next.owned ≠ some ptr := by
        rw [hn]
        exact nofun
      refine hinv.put (by rw [hptr, hnext]; exact hlt) ?_ (fun ptr ho => absurd ho (hnone ptr))
        (fun ptr ho => absurd ho (hnone ptr)) fun q hq ptr ho => ?_
      · rw [hptr, hl]
        exact (List.mem_erase_of_ne (hinv.owned_ne _ _ hhere).symm).mpr hlive
      · obtain ⟨holt, hone, holive⟩ := hinv.owned ho
        refine ⟨by rw [hnext]; exact holt, by rw [hptr]; exact hone, ?_⟩
        rw [hl]
        refine (List.mem_erase_of_ne ?_).mpr holive
        rintro rfl
        exact hq (hinv.owned_inj _ _ _ ho hhere)

theorem ownInv_boot (dev : Dev) : OwnInv (boot dev) where
  slotsPtr_lt := Nat.zero_lt_one
  slotsPtr_live := List.mem_cons_self
  owned_lt _ _ := nofun
  owned_ne _ _ := nofun
  owned_live _ _ := nofun
  owned_inj _ _ _ := nofun

end Runs

end Kbuf
