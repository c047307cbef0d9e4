import Kbuf.Machine.Ownership
import Kbuf.Resize.Sizes

namespace Kbuf

open Interleaving

section Steps

variable {w w' : World} {here next : Local} {me : Nat}

-- No array is allocated, freed, resized or installed. What the slots hold may change.
structure SameArrays (w w' : World) : Prop where
  slotsPtr : w'.slotsPtr = w.slotsPtr
  nextPtr : w'.nextPtr = w.nextPtr
  live : w'.live = w.live
  sizes : ∀ ptr, w'.sizes ptr = w.sizes ptr
  numBuffers : w'.dev.numBuffers = w.dev.numBuffers
  bufferSize : w'.dev.bufferSize = w.dev.bufferSize

theorem SameLayout.sameArrays (h : SameLayout w w') (hlive : w'.live = w.live) :
    SameArrays w w' where
  slotsPtr := h.slotsPtr
  nextPtr := h.nextPtr
  live := hlive
  sizes ptr := by rw [World.sizes, h.array, World.sizes]
  numBuffers := h.numBuffers
  bufferSize := h.bufferSize

theorem WaitMove.sameArrays {wq : Wq} {cond : Dev → Bool} {pc : WaitPc} {out : WaitNext}
    (h : WaitMove wq cond me w pc w' out) : SameArrays w w' := by
  refine h.sameLayout.sameArrays ?_
  obtain ⟨waiters, rfl⟩ := h.frame
  cases wq <;> rfl

theorem ReadMove.sameArrays {nonblock : Bool} {u : UserRead} {pc : ReadPc} {after : Next ReadPc}
    (h : ReadMove nonblock u me w pc w' after) : SameArrays w w' := by
  cases h with
  | wait hw => exact hw.sameArrays
  | consume =>
      refine (consumeStep_sameLayout w me u).sameArrays ?_
      obtain ⟨log, hw⟩ := consumeStep_world w me u
      rw [hw]
  | lock | lockSignal | again | sleep | ready | unlockSleep | unlockOk | unlockError | wake =>
      exact ⟨rfl, rfl, rfl, fun _ => rfl, rfl, rfl⟩

theorem WriteMove.sameArrays {nonblock : Bool} {u : UserWrite} {pc : WritePc}
    {after : Next (UserWrite × WritePc)} (h : WriteMove nonblock u me w pc w' after) :
    SameArrays w w' := by
  cases h with
  | wait hw => exact hw.sameArrays
  | produce =>
      have hsizes := produceStep_sizes w me u
      obtain ⟨log, hw⟩ := produceStep_world w me u
      rw [hw] at hsizes ⊢
      exact ⟨rfl, rfl, rfl, hsizes, ringProduce_numBuffers u, ringProduce_bufferSize u⟩
  | lock | lockSignal | clamp | again | sleep | ready | unlockSleep | relock | relockSignal
  | unlockOk | unlockError | wake => exact ⟨rfl, rfl, rfl, fun _ => rfl, rfl, rfl⟩

theorem SpscReadMove.sameArrays {nonblock : Bool} {u : UserRead} {pc : SpscReadPc}
    {after : Next SpscReadPc} (h : SpscReadMove nonblock u me w pc w' after) :
    SameArrays w w' := by
  cases h with
  | wait hw => exact hw.sameArrays
  | empty | again | block | ready | sleep | consume | len | copyByte | copyFault | copyDone
  | publish | bytesLoad | bytesStore | msgsLoad | msgsStore | trace | wake =>
      exact ⟨rfl, rfl, rfl, fun _ => rfl, rfl, rfl⟩

theorem SpscWriteMove.sameArrays {nonblock : Bool} {u : UserWrite} {pc : SpscWritePc}
    {after : Next (UserWrite × SpscWritePc)} (h : SpscWriteMove nonblock u me w pc w' after) :
    SameArrays w w' := by
  cases h with
  | wait hw => exact hw.sameArrays
  | @copyByte f i hi =>
      exact ⟨rfl, rfl, rfl, sizes_store f.slot _ (List.length_set ..), rfl, rfl⟩
  | @setLen f => exact ⟨rfl, rfl, rfl, sizes_store f.slot _ rfl, rfl, rfl⟩
  | clamp | full | again | block | ready | sleep | produce | copyFault | copyDone | publish
  | bytesLoad | bytesStore | msgsLoad | msgsStore | occ | peakHigher | peakKept | peakStore
  | wake => exact ⟨rfl, rfl, rfl, fun _ => rfl, rfl, rfl⟩

-- Only a resize allocates, installs or frees arrays.
theorem Move.sameArrays {choice : Choice} (h : Move me w choice here w' next)
    (hne : ∀ rq pc, here ≠ .resize rq pc) : SameArrays w w' := by
  cases h with
  | enter | readSampleSpsc | readSampleBlocking | writeSampleSpsc | writeSampleBlocking =>
      exact ⟨rfl, rfl, rfl, fun _ => rfl, rfl, rfl⟩
  | readBlocking h => exact h.sameArrays
  | writeBlocking h => exact h.sameArrays
  | readSpsc h => exact h.sameArrays
  | writeSpsc h => exact h.sameArrays
  | resize => exact absurd rfl (hne _ _)
  | smode h => cases h <;> exact ⟨rfl, rfl, rfl, fun _ => rfl, rfl, rfl⟩
  | reset h =>
      cases h with
      | @store field => exact (resetStore_sameLayout w field).sameArrays rfl
      | lock | unlock => exact ⟨rfl, rfl, rfl, fun _ => rfl, rfl, rfl⟩
  | getstats h => cases h <;> exact ⟨rfl, rfl, rfl, fun _ => rfl, rfl, rfl⟩
  | poll h => cases h <;> exact ⟨rfl, rfl, rfl, fun _ => rfl, rfl, rfl⟩

theorem Move.owned_of_not_resize {choice : Choice} (h : Move me w choice here w' next)
    (hne : ∀ rq pc, here ≠ .resize rq pc) : next.owned = none := by
  have hsame := h.sameArrays hne
  have hhere : here.owned = none := by
    cases here with
    | resize rq pc => exact absurd rfl (hne rq pc)
    | _ => rfl
  cases h.own_effect with
  | keep h =>
      rcases h with h | h
      · rw [h, hhere]
      · exact h
  | alloc _ _ hnext =>
      have := hsame.nextPtr
      omega
  | swap _ ho =>
      rw [hhere] at ho
      cases ho
  | free _ ho =>
      rw [hhere] at ho
      cases ho

end Steps

section Owners

variable {s t : System}

-- Nobody has lost track of an array: each live one is the device's or some resize has it.
structure OwnersInv (s : System) : Prop where
  own : OwnInv s
  nodup : s.shared.live.Nodup
  owners : ∀ ptr ∈ s.shared.live,
    ptr = s.shared.slotsPtr ∨ ∃ p, (s.locals p).owned = some ptr

theorem OwnersInv.lt (h : OwnersInv s) {ptr : Nat} (hmem : ptr ∈ s.shared.live) :
    ptr < s.shared.nextPtr := by
  rcases h.owners ptr hmem with rfl | ⟨p, hp⟩
  · exact h.own.slotsPtr_lt
  · exact h.own.owned_lt p ptr hp

-- A resize keeps its array until it has handed it to the device or freed it.
theorem Move.owned_next {w w' : World} {here next : Local} {me ptr : Nat} {choice : Choice}
    (h : Move me w choice here w' next) (ho : here.owned = some ptr) :
    next.owned = some ptr ∨ w'.slotsPtr = ptr ∨ w'.live = w.live.erase ptr := by
  cases h with
  | enter h => rcases h with rfl | ⟨_, rfl⟩ <;> cases ho
  | resize h =>
      cases h with
      | lock | busy | unlockBusy | unlock => exact Or.inl ho
      | swap => exact Or.inr (Or.inl (Option.some.inj ho))
      | freeNew | freeOld =>
          obtain rfl := Option.some.inj ho
          exact Or.inr (Or.inr rfl)
      | reject | accept | nomem | alloc | wake => cases ho
  | _ => cases ho

theorem ownersInv_step {act : Act Choice} (h : OwnersInv s) (hstep : step driver s act = some t) :
    OwnersInv t := by
  have hown := ownInv_step h.own hstep
  obtain ⟨w, next, hmove, rfl⟩ := step_move hstep
  -- an array that was live before the step and is live after it
  have hold (ptr : Nat) (hmem : ptr ∈ s.shared.live) (hlive : ptr ∈ w.live)
      (hslots : w.slotsPtr = s.shared.slotsPtr ∨ next.owned = some s.shared.slotsPtr) :
      ptr = w.slotsPtr ∨ ∃ p, ((s.put act.pid (w, next)).locals p).owned = some ptr := by
    rcases h.owners ptr hmem with rfl | ⟨p, hp⟩
    · rcases hslots with hslots | hslots
      · exact Or.inl hslots.symm
      · exact Or.inr ⟨act.pid, by rw [State.put_locals_self]; exact hslots⟩
    · by_cases hme : p = act.pid
      · subst hme
        rcases hmove.owned_next hp with hnext | hptr | herase
        · exact Or.inr ⟨act.pid, by rw [State.put_locals_self]; exact hnext⟩
        · exact Or.inl hptr.symm
        · rw [herase] at hlive
          exact absurd rfl (h.nodup.mem_erase_iff.mp hlive).1
      · exact Or.inr ⟨p, by rw [State.put_locals_of_ne _ _ hme]; exact hp⟩
  cases hmove.own_effect with
  | keep _ hptr _ hl =>
      refine ⟨hown, by rw [State.put_shared, hl]; exact h.nodup, fun ptr hmem => ?_⟩
      have hmem' : ptr ∈ s.shared.live := by rw [← hl]; exact hmem
      exact hold ptr hmem' hmem (Or.inl hptr)
  | alloc hn hptr _ hl =>
      refine ⟨hown, ?_, fun ptr hmem => ?_⟩
      · rw [State.put_shared, hl]
        exact List.nodup_cons.mpr ⟨fun hmem => Nat.lt_irrefl _ (h.lt hmem), h.nodup⟩
      · have hcases : ptr ∈ s.shared.nextPtr :: s.shared.live := by rw [← hl]; exact hmem
        rcases List.mem_cons.mp hcases with rfl | hmem'
        · exact Or.inr ⟨act.pid, by rw [State.put_locals_self]; exact hn⟩
        · exact hold ptr hmem' hmem (Or.inl hptr)
  | swap _ _ hn _ _ hl =>
      refine ⟨hown, by rw [State.put_shared, hl]; exact h.nodup, fun ptr hmem => ?_⟩
      have hmem' : ptr ∈ s.shared.live := by rw [← hl]; exact hmem
      exact hold ptr hmem' hmem (Or.inr hn)
  | free old _ _ hptr _ hl =>
      refine ⟨hown, by rw [State.put_shared, hl]; exact h.nodup.erase old, fun ptr hmem => ?_⟩
      have hmem' : ptr ∈ s.shared.live.erase old := by rw [← hl]; exact hmem
      exact hold ptr (List.mem_of_mem_erase hmem') hmem (Or.inl hptr)

theorem ownersInv_boot (dev : Dev) : OwnersInv (boot dev) where
  own := ownInv_boot dev
  nodup := List.nodup_singleton 0
  owners _ hmem := Or.inl (List.mem_singleton.mp hmem)

end Owners

end Kbuf
