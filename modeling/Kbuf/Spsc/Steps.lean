import Kbuf.Spsc.Invariant

namespace Kbuf

open Interleaving FreeRunning

section Bytes

variable {data ubuf : List UInt8} {i n : Nat}

theorem bytes_set (hi : i < data.length)
    (h : ∀ j, j < i → data[j]? = some (ubuf.getD j 0)) :
    ∀ j, j < i + 1 → (data.set i (ubuf.getD i 0))[j]? = some (ubuf.getD j 0) := by
  intro j hj
  by_cases hij : i = j
  · subst hij
    rw [List.getElem?_set_self hi]
  · rw [List.getElem?_set_ne hij]
    exact h j (by omega)

theorem take_eq_of_bytes (hn : n ≤ ubuf.length)
    (h : ∀ j, j < n → data[j]? = some (ubuf.getD j 0)) : data.take n = ubuf.take n := by
  apply List.ext_getElem?
  intro j
  by_cases hj : j < n
  · have hlt : j < ubuf.length := by omega
    rw [List.getElem?_take_of_lt hj, List.getElem?_take_of_lt hj, h j hj]
    simp [List.getD_eq_getElem?_getD, hlt]
  · rw [List.getElem?_take_eq_none (by omega), List.getElem?_take_eq_none (by omega)]

theorem take_succ_eq (hi : i < data.length) :
    data.take i ++ [data.getD i 0] = data.take (i + 1) := by
  rw [List.take_add_one, List.getElem?_eq_getElem hi]
  simp [List.getD_eq_getElem?_getD, hi]

end Bytes

section Moves

variable {roles : Roles} {me : Nat} {w w' : World}

theorem WaitMove.ring_frame {wq : Wq} {cond : Dev → Bool} {pc : WaitPc} {out : WaitNext}
    (h : WaitMove wq cond me w pc w' out) :
    w'.dev.ring = w.dev.ring ∧ w'.slotsPtr = w.slotsPtr ∧ w'.heap = w.heap ∧ w'.log = w.log := by
  have hl := h.sameLayout
  refine ⟨?_, hl.slotsPtr, hl.heap, h.log_eq⟩
  rw [h.dev_eq]

theorem producerSlot_bounds (hok : RingOk w) :
    w.dev.ring.producerSlot.data.length = w.dev.ring.bufferSize ∧
      w.dev.ring.producerSlot.len ≤ w.dev.ring.bufferSize := by
  have hm := slot_mem hok.geometry (hok.ring.masked_lt hok.geometry w.dev.ring.prodIdx)
  exact ⟨hok.geometry.data_length _ hm, hok.geometry.len_le _ hm⟩

theorem consumerSlot_bounds (hok : RingOk w) :
    w.dev.ring.consumerSlot.data.length = w.dev.ring.bufferSize ∧
      w.dev.ring.consumerSlot.len ≤ w.dev.ring.bufferSize := by
  have hm := slot_mem hok.geometry (hok.ring.masked_lt hok.geometry w.dev.ring.consIdx)
  exact ⟨hok.geometry.data_length _ hm, hok.geometry.len_le _ hm⟩

theorem producerSlot_store (hok : RingOk w) (slot : Slot) :
    (w.store ⟨w.slotsPtr, w.dev.ring.masked w.dev.ring.prodIdx⟩ slot).dev.ring.producerSlot =
      slot := by
  rw [store_ring]
  exact producerSlot_fill hok.geometry slot (hok.ring.masked_lt hok.geometry _)

theorem Filling.store {u : UserWrite} {f : Producing} (h : Filling w.dev.ring w.slotsPtr u f)
    (index : Nat) (slot : Slot) :
    Filling (w.store ⟨w.slotsPtr, index⟩ slot).dev.ring w.slotsPtr u f := by
  rw [store_ring]
  exact ⟨h.prod, h.slot, h.room, h.fits⟩

-- One byte of the copy into the producer's slot.
theorem copyByte_step (hok : RingOk w) (hme : me = roles.producer) {nonblock : Bool}
    {u : UserWrite} {f : Producing} {i : Nat} {here : Local} (hi : i < u.count)
    (hf : Filling w.dev.ring w.slotsPtr u f)
    (hbytes : ∀ j, j < i → w.dev.ring.producerSlot.data[j]? = some (u.ubuf.getD j 0)) :
    SpscStep roles me w here (storeByte w f.slot u.ubuf i)
      (.writeSpsc nonblock u (.copy f (i + 1))) := by
  obtain ⟨hdata, hlen⟩ := producerSlot_bounds hok
  have hfits := hf.fits
  have hslot := hf.slot
  unfold storeByte
  rw [hslot, load_ring]
  refine .fill _ hme rfl hf.room ?_ hlen ⟨hme, hf.store _ _, hi, ?_⟩
  · rw [List.length_set]
    exact hdata
  · rw [producerSlot_store hok]
    exact bytes_set (by unfold Dev.producerSlot at hdata; omega) hbytes

-- A producer's move, from what it knows to what it knows next.
theorem SpscWriteMove.spsc_step {nonblock : Bool} {u : UserWrite} {pc : SpscWritePc}
    {after : Next (UserWrite × SpscWritePc)} (hok : RingOk w) (hme : me = roles.producer)
    (hpc : ProducerOk w.dev.ring w.slotsPtr u pc) (h : SpscWriteMove nonblock u me w pc w' after) :
    SpscStep roles me w (.writeSpsc nonblock u pc) w'
      (after.lift fun (u, pc) => .writeSpsc nonblock u pc) := by
  cases h with
  | clamp =>
      refine .quiet rfl rfl rfl rfl ⟨hme, ?_⟩
      have := clamp_count u w.dev.bufferSize
      change (u.clamp w.dev.bufferSize).count ≤ w.dev.bufferSize
      omega
  | full => exact .quiet rfl rfl rfl rfl ⟨hme, hpc, Or.inl rfl⟩
  | block he hn => exact .quiet rfl rfl rfl rfl ⟨hme, hpc.1⟩
  | ready he =>
      -- The room seen with an old `cons_idx` or an old `prod_idx` is still there.
      obtain ⟨hcount, rfl | hroom⟩ := hpc
      · exact .quiet rfl rfl rfl rfl ⟨hme, hcount, he⟩
      · exact .quiet rfl rfl rfl rfl ⟨hme, hcount, hroom⟩
  | sleep => exact .quiet rfl rfl rfl rfl ⟨hme, hpc⟩
  | @wait _ _ out hw =>
      obtain ⟨hring, hptr, hheap, hlog⟩ := hw.ring_frame
      refine .quiet hring hptr hheap hlog ?_
      cases out with
      | wait | woken => exact ⟨hme, by rw [hring]; exact hpc⟩
      | interrupted => trivial
  | produce =>
      refine .quiet rfl rfl rfl rfl ⟨hme, ⟨rfl, rfl, hpc.2, hpc.1⟩, Nat.zero_le _, ?_⟩
      intro j hj
      omega
  | copyByte hi => exact copyByte_step hok hme hi hpc.1 hpc.2.2
  | copyDone hi hu =>
      obtain ⟨hf, -, hbytes⟩ := hpc
      refine .quiet rfl rfl rfl rfl ⟨hme, hf, hu, ?_⟩
      exact take_eq_of_bytes hu fun j hj => hbytes j (by omega)
  | setLen =>
      obtain ⟨hf, -, htake⟩ := hpc
      obtain ⟨hdata, -⟩ := producerSlot_bounds hok
      rw [hf.slot, load_ring]
      refine .fill _ hme rfl hf.room hdata hf.fits ⟨hme, hf.store _ _, ?_⟩
      rw [producerSlot_store hok]
      exact htake
  | @publish f =>
      obtain ⟨hf, hmessage⟩ := hpc
      refine ⟨.publish hme hf.room ?_ rfl ?_, fun _ _ _ => rfl, hme, trivial⟩
      · rw [hf.prod]
        rfl
      · rw [hmessage]
  | bytesLoad | bytesStore | msgsLoad | msgsStore | occ | peakHigher | peakKept | peakStore =>
      exact .quiet rfl rfl rfl rfl ⟨hme, trivial⟩
  | again | copyFault | wake => exact .quiet rfl rfl rfl rfl trivial

-- A consumer's move, from what it knows to what it knows next.
theorem SpscReadMove.spsc_step {nonblock : Bool} {u : UserRead} {pc : SpscReadPc}
    {after : Next SpscReadPc} (hok : RingOk w) (hme : me = roles.consumer)
    (hpc : ConsumerOk w.dev.ring w.slotsPtr u pc) (h : SpscReadMove nonblock u me w pc w' after) :
    SpscStep roles me w (.readSpsc nonblock u pc) w' (after.lift (.readSpsc nonblock u)) := by
  cases h with
  | empty =>
      refine .quiet rfl rfl rfl rfl ⟨hme, fun hne => ?_⟩
      exact Nat.pos_of_ne_zero fun hz => hne ((depth_eq_zero_iff _ _).mp hz)
  | ready he => exact .quiet rfl rfl rfl rfl ⟨hme, hpc he⟩
  | @wait _ _ out hw =>
      obtain ⟨hring, hptr, hheap, hlog⟩ := hw.ring_frame
      refine .quiet hring hptr hheap hlog ?_
      cases out with
      | wait | woken => exact ⟨hme, trivial⟩
      | interrupted => trivial
  | consume => exact .quiet rfl rfl rfl rfl ⟨hme, rfl, rfl, hpc⟩
  | len =>
      refine .quiet rfl rfl rfl rfl ⟨hme, hpc, ?_, Nat.zero_le _, rfl⟩
      rw [hpc.slot, load_ring]
      rfl
  | @copyByte f hl hr =>
      obtain ⟨hd, hlen, -, hout⟩ := hpc
      obtain ⟨hdata, hslot⟩ := consumerSlot_bounds hok
      have hlt : f.out.length < w.dev.ring.consumerSlot.data.length := by omega
      refine .quiet rfl rfl rfl rfl ⟨hme, hd, hlen, ?_, ?_⟩
      · rw [List.length_append]
        exact hl
      · rw [hd.slot, load_ring, List.length_append, List.length_singleton, ← take_succ_eq hlt,
          ← hout]
        rfl
  | @copyDone f hl =>
      obtain ⟨hd, hlen, hle, hout⟩ := hpc
      have hwhole : f.len = f.out.length := Nat.le_antisymm hl hle
      refine .quiet rfl rfl rfl rfl ⟨hme, hd, hwhole, ?_⟩
      rw [Slot.message, List.take_take, ← hlen, hwhole]
      exact hout
  | @publish f =>
      obtain ⟨hd, hwhole, hout⟩ := hpc
      refine ⟨.release u.count hme hd.ready ?_ rfl ?_, fun _ _ _ => rfl, hme, hwhole⟩
      · rw [hd.cons]
        rfl
      · rw [← hout]
  | bytesLoad | bytesStore | msgsLoad | msgsStore | trace =>
      exact .quiet rfl rfl rfl rfl ⟨hme, hpc⟩
  | block | sleep => exact .quiet rfl rfl rfl rfl ⟨hme, trivial⟩
  | wake => exact .quiet rfl rfl rfl rfl hpc
  | again | copyFault => exact .quiet rfl rfl rfl rfl trivial

theorem accepted_of_check {dev : Dev} {rq : ResizeArg} (hmode : dev.mode = .SPSC)
    (h : resizeCheck dev rq = .ok ()) : rq.Accepted := by
  obtain ⟨-, -, -, -, hpower⟩ := resizeCheck_ok h
  exact ⟨resizeCheck_valid h, hpower hmode⟩

theorem ResizeMove.spsc_step {rq : ResizeArg} {pc : ResizePc} {after : Next ResizePc}
    (hmode : w.dev.mode = .SPSC) (hlt : w.slotsPtr < w.nextPtr) (hme : roles.mayResize me)
    (hpc : ResizerOk w rq pc) (h : ResizeMove rq me w pc w' after) :
    SpscStep roles me w (.resize rq pc) w' (after.lift (.resize rq)) := by
  cases h with
  | accept hcheck => exact .quiet rfl rfl rfl rfl ⟨hme, accepted_of_check hmode hcheck⟩
  | alloc halloc =>
      refine ⟨.quiet rfl rfl rfl, fun ptr _ hptr => ?_, hme, hpc, ?_⟩
      · rw [array_alloc w _ hlt]
        exact if_neg (Nat.ne_of_lt hptr)
      · rw [array_alloc w _ hlt, if_pos rfl]
        exact allocSlots_eq_some halloc
  | lock => exact .quiet rfl rfl rfl rfl ⟨hme, hpc⟩
  | swap hempty =>
      refine ⟨.swap rq _ rfl hempty rfl, fun ptr _ _ => ?_, hme, trivial⟩
      exact array_install w _ _ ptr rfl
  | busy | unlockBusy | unlock | freeOld => exact .quiet rfl rfl rfl rfl ⟨hme, trivial⟩
  | reject | nomem | freeNew | wake => exact .quiet rfl rfl rfl rfl trivial

theorem resetStore_ring (dev : Dev) (field : Nat) : (resetStore dev field).ring = dev.ring := by
  obtain ⟨_, _, _, _, _, _, _, h⟩ := resetStore_frame dev field
  rw [h]
  rfl

theorem Move.spsc_step {choice : Choice} {here next : Local} (hok : RingOk w)
    (hlt : w.slotsPtr < w.nextPtr) (hhere : here.SpscOk roles w me)
    (hstart : ∀ request, choice = .start request → roles.allows me request)
    (h : Move me w choice here w' next) : SpscStep roles me w here w' next := by
  have hmode := hok.mode
  cases h with
  | @enter _ request _ =>
      have hallowed := hstart request rfl
      refine .quiet rfl rfl rfl rfl ?_
      cases request with
      | read | write => exact hallowed
      | resize => exact ⟨hallowed, trivial⟩
      | smode => exact hallowed
      | reset | getstats | poll => trivial
  | readSampleSpsc => exact .quiet rfl rfl rfl rfl ⟨hhere, trivial⟩
  | writeSampleSpsc => exact .quiet rfl rfl rfl rfl ⟨hhere, trivial⟩
  | readSampleBlocking hm | writeSampleBlocking hm =>
      rw [hmode] at hm
      cases hm
  | readSpsc h => exact h.spsc_step hok hhere.1 hhere.2
  | writeSpsc h => exact h.spsc_step hok hhere.1 hhere.2
  | resize h => exact h.spsc_step hmode hlt hhere.1 hhere.2
  | readBlocking | writeBlocking | smode => exact hhere.elim
  | reset h =>
      cases h with
      | @store field =>
          refine .quiet (resetStore_ring w.dev field) rfl rfl rfl ?_
          dsimp only [Next.lift]
          trivial
      | lock | unlock => exact .quiet rfl rfl rfl rfl trivial
  | getstats h =>
      cases h with
      | lock | loadSpsc | loadBlocking | occ => exact .quiet rfl rfl rfl rfl trivial
      | unlock => exact .quiet rfl rfl rfl rfl (by dsimp only [Next.lift]; trivial)
  | poll h => cases h <;> exact .quiet rfl rfl rfl rfl trivial

end Moves

end Kbuf
