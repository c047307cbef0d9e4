import Kbuf.Machine.History

namespace Kbuf

open Interleaving

-- The counter of the blocking ring stays within the ring, whatever the slots hold.
structure CountBounds (dev : Dev) : Prop where
  num_pos : 1 ≤ dev.numBuffers
  num_le : dev.numBuffers ≤ KBUF_MAX_NUM_BUFFERS
  count_nonneg : 0 ≤ dev.count
  count_le : dev.count ≤ dev.numBuffers

-- What a process has tested before it got where it is.
def Local.Checked (dev : Dev) : Local → Prop
  | .readBlocking _ _ .consume => ringIsEmpty dev = false
  | .writeBlocking _ _ .produce => ringIsFull dev = false
  | .resize rq pc => pc ≠ .check → 1 ≤ rq.numBuffers ∧ rq.numBuffers ≤ KBUF_MAX_NUM_BUFFERS
  | _ => True

section Bounds

variable {dev : Dev}

theorem CountBounds.of_eq {other : Dev} (h : CountBounds dev) (hc : other.count = dev.count)
    (hn : other.numBuffers = dev.numBuffers) : CountBounds other where
  num_pos := hn ▸ h.num_pos
  num_le := hn ▸ h.num_le
  count_nonneg := hc ▸ h.count_nonneg
  count_le := by rw [hc, hn]; exact h.count_le

theorem CountBounds.toUnsigned_eq (h : CountBounds dev) :
    toUnsigned dev.count = dev.count.toNat := by
  have hle := h.count_le
  have hn := h.num_le
  simp only [KBUF_MAX_NUM_BUFFERS] at hn
  exact toUnsigned_of_bounds h.count_nonneg (by omega)

theorem count_pos_of_not_empty (h : CountBounds dev) (hne : ringIsEmpty dev = false) :
    0 < dev.count := by
  have hnonneg := h.count_nonneg
  have hzero : dev.count ≠ 0 := by simpa [ringIsEmpty] using hne
  omega

theorem count_lt_of_not_full (h : CountBounds dev) (hfull : ringIsFull dev = false) :
    dev.count < dev.numBuffers := by
  have hle := h.count_le
  have hnonneg := h.count_nonneg
  have hne : dev.count.toNat ≠ dev.numBuffers := by
    simpa [ringIsFull, h.toUnsigned_eq] using hfull
  omega

theorem BlockingRing.countBounds (hg : Geometry dev) (hr : BlockingRing dev) : CountBounds dev :=
  ⟨hg.num_pos, hg.num_le, hr.count_nonneg, hr.count_le⟩

end Bounds

section CriticalSection

-- One critical section moves the counter and the history together, or neither.
theorem consumeStep_count (w : World) (me : Nat) (u : UserRead) :
    (consumeStep w me u).1.dev.count = w.dev.count ∧ (consumeStep w me u).1.log = w.log ∧
        (consumeStep w me u).2.ok = false ∨
      ∃ out, (consumeStep w me u).1.dev.count = w.dev.count - 1 ∧
        (consumeStep w me u).1.log = w.log ++ [.consumed me u.count out] ∧
        (consumeStep w me u).2.ok = true := by
  by_cases hu : min u.count (w.dev.slot w.dev.readPos).len - u.room = 0
  · right
    refine ⟨(w.dev.slot w.dev.readPos).data.take
      (min (min u.count (w.dev.slot w.dev.readPos).len) u.room), ?_⟩
    simp [consumeStep, ringConsume, copyToUser, hu, Ret.ok]
  · left
    simp [consumeStep, ringConsume, copyToUser, hu, Ret.ok]

theorem produceStep_count (w : World) (me : Nat) (u : UserWrite) :
    (produceStep w me u).1.dev.count = w.dev.count ∧ (produceStep w me u).1.log = w.log ∧
        (produceStep w me u).2.ok = false ∨
      (produceStep w me u).1.dev.count = w.dev.count + 1 ∧
        (produceStep w me u).1.log = w.log ++ [.produced me (u.ubuf.take u.count)] ∧
        (produceStep w me u).2.ok = true := by
  by_cases hu : u.count - u.ubuf.length = 0
  · right
    simp [produceStep, ringProduce, copyFromUser, hu, Ret.ok, Dev.setSlot]
  · left
    simp [produceStep, ringProduce, copyFromUser, hu, Ret.ok, Dev.setSlot]

end CriticalSection

section Steps

-- What a step leaves behind, and what the other processes may notice of it.
structure CountStep (w : World) (here : Local) (w' : World) (next : Local) : Prop where
  bounds : CountBounds w'.dev
  checked : next.Checked w'.dev
  frame : w'.dev.count = w.dev.count ∧ w'.dev.numBuffers = w.dev.numBuffers ∨ here.holds = true

variable {w w' : World} {here next : Local} {me : Nat}

theorem CountStep.quiet (hb : CountBounds w.dev) (hc : w'.dev.count = w.dev.count)
    (hn : w'.dev.numBuffers = w.dev.numBuffers) (hnext : next.Checked w'.dev) :
    CountStep w here w' next :=
  ⟨hb.of_eq hc hn, hnext, Or.inl ⟨hc, hn⟩⟩

theorem CountStep.wait {wq : Wq} {cond : Dev → Bool} {pc : WaitPc} {out : WaitNext}
    (hb : CountBounds w.dev) (hw : WaitMove wq cond me w pc w' out)
    (h : Waiting out wq here next) : CountStep w here w' next := by
  have hd := hw.dev_eq
  refine .quiet hb (by rw [hd]) (by rw [hd]) ?_
  cases h <;> cases out <;> trivial

theorem ReadMove.count_step {nonblock : Bool} {u : UserRead} {pc : ReadPc}
    {after : Next ReadPc} (hb : CountBounds w.dev)
    (hc : (Local.readBlocking nonblock u pc).Checked w.dev)
    (h : ReadMove nonblock u me w pc w' after) :
    CountStep w (.readBlocking nonblock u pc) w' (after.lift (.readBlocking nonblock u)) := by
  cases h with
  | ready he => exact .quiet hb rfl rfl he
  | wait hw => exact .wait hb hw (.readBlocking ..)
  | consume =>
      have hn := consumeStep_numBuffers w me u
      have hpos := count_pos_of_not_empty hb hc
      have hle := hb.count_le
      rcases consumeStep_count w me u with ⟨hcount, -, -⟩ | ⟨out, hcount, -, -⟩
      · exact .quiet hb hcount hn trivial
      · refine ⟨⟨hn ▸ hb.num_pos, hn ▸ hb.num_le, ?_, ?_⟩, trivial, Or.inr rfl⟩
        · omega
        · omega
  | lock | lockSignal | again | sleep | unlockSleep | unlockOk | unlockError | wake =>
      exact .quiet hb rfl rfl trivial

theorem WriteMove.count_step {nonblock : Bool} {u : UserWrite} {pc : WritePc}
    {after : Next (UserWrite × WritePc)} (hb : CountBounds w.dev)
    (hc : (Local.writeBlocking nonblock u pc).Checked w.dev)
    (h : WriteMove nonblock u me w pc w' after) :
    CountStep w (.writeBlocking nonblock u pc) w'
      (after.lift fun (u, pc) => .writeBlocking nonblock u pc) := by
  cases h with
  | ready he => exact .quiet hb rfl rfl he
  | wait hw => exact .wait hb hw (.writeBlocking ..)
  | produce =>
      have hn := produceStep_numBuffers w me u
      have hlt := count_lt_of_not_full hb hc
      have hnonneg := hb.count_nonneg
      rcases produceStep_count w me u with ⟨hcount, -, -⟩ | ⟨hcount, -, -⟩
      · exact .quiet hb hcount hn trivial
      · refine ⟨⟨hn ▸ hb.num_pos, hn ▸ hb.num_le, ?_, ?_⟩, trivial, Or.inr rfl⟩
        · omega
        · omega
  | lock | lockSignal | clamp | again | sleep | unlockSleep | relock | relockSignal | unlockOk
  | unlockError | wake => exact .quiet hb rfl rfl trivial

theorem ResizeMove.count_step {rq : ResizeArg} {pc : ResizePc} {after : Next ResizePc}
    (hb : CountBounds w.dev) (hc : (Local.resize rq pc).Checked w.dev)
    (h : ResizeMove rq me w pc w' after) :
    CountStep w (.resize rq pc) w' (after.lift (.resize rq)) := by
  cases h with
  | reject | nomem | freeNew | wake => exact .quiet hb rfl rfl trivial
  | accept hok =>
      obtain ⟨hn, hn', -⟩ := resizeCheck_ok hok
      exact .quiet hb rfl rfl fun _ => ⟨hn, hn'⟩
  | alloc | lock | busy | unlockBusy | unlock | freeOld =>
      exact .quiet hb rfl rfl fun _ => hc (by simp)
  | swap ho =>
      have hrq := hc (by simp)
      exact ⟨⟨hrq.1, hrq.2, le_refl 0, Int.natCast_nonneg _⟩, fun _ => hrq, Or.inr rfl⟩

theorem Move.count_step {choice : Choice} (hb : CountBounds w.dev) (hc : here.Checked w.dev)
    (h : Move me w choice here w' next) : CountStep w here w' next := by
  cases h with
  | @enter _ request _ =>
      refine .quiet hb rfl rfl ?_
      cases request with
      | resize rq => exact fun hne => absurd rfl hne
      | read | write | smode | reset | getstats | poll => trivial
  | readSampleSpsc | readSampleBlocking | writeSampleSpsc | writeSampleBlocking =>
      exact .quiet hb rfl rfl trivial
  | readBlocking h => exact h.count_step hb hc
  | writeBlocking h => exact h.count_step hb hc
  | resize h => exact h.count_step hb hc
  | readSpsc h =>
      cases h with
      | wait hw => exact .wait hb hw (.readSpsc ..)
      | empty | again | block | ready | sleep | consume | len | copyByte | copyFault | copyDone
      | publish | bytesLoad | bytesStore | msgsLoad | msgsStore | trace | wake =>
          exact .quiet hb rfl rfl trivial
  | writeSpsc h =>
      cases h with
      | wait hw => exact .wait hb hw (.writeSpsc ..)
      | copyByte | setLen | clamp | full | again | block | ready | sleep | produce | copyFault
      | copyDone | publish
      | bytesLoad | bytesStore | msgsLoad | msgsStore | occ | peakHigher | peakKept | peakStore
      | wake => exact .quiet hb rfl rfl trivial
  | smode h =>
      cases h with
      | switch ho hp =>
          exact ⟨⟨hb.num_pos, hb.num_le, le_refl 0, Int.natCast_nonneg _⟩, trivial, Or.inr rfl⟩
      | reject | accept | lock | refuse | unlock => exact .quiet hb rfl rfl trivial
  | reset h =>
      cases h with
      | @store field =>
          obtain ⟨_, _, _, _, _, _, _, hd⟩ := resetStore_frame w.dev field
          rw [hd]
          exact .quiet hb rfl rfl trivial
      | lock | unlock => exact .quiet hb rfl rfl trivial
  | getstats h => cases h <;> exact .quiet hb rfl rfl trivial
  | poll h => cases h <;> exact .quiet hb rfl rfl trivial

theorem Local.Checked.of_eq {dev other : Dev} (h : here.Checked dev)
    (hc : other.count = dev.count) (hn : other.numBuffers = dev.numBuffers) :
    here.Checked other := by
  unfold Local.Checked ringIsEmpty ringIsFull at h ⊢
  rw [hc, hn]
  exact h

-- Outside the critical sections nothing is known about the counter.
theorem Local.Checked.of_not_holds {dev other : Dev} (h : here.Checked dev)
    (hh : here.holds = false) : here.Checked other := by
  unfold Local.Checked at h ⊢
  split at h
  · cases hh
  · cases hh
  · exact h
  · trivial

end Steps

structure CountInv (s : System) : Prop where
  lock : LockInv s
  bounds : CountBounds s.shared.dev
  checked : ∀ p, (s.locals p).Checked s.shared.dev

theorem countInv_step {s t : System} {act : Act Choice} (hinv : CountInv s)
    (h : step driver s act = some t) : CountInv t := by
  obtain ⟨w, next, hmove, rfl⟩ := step_move h
  have hstep := hmove.count_step hinv.bounds (hinv.checked act.pid)
  refine ⟨lockInv_step hinv.lock h, hstep.bounds, State.forall_put
    (P := fun _ (here : Local) => here.Checked w.dev) hstep.checked fun p hp => ?_⟩
  rcases hstep.frame with ⟨hc, hn⟩ | hholds
  · exact (hinv.checked p).of_eq hc hn
  · refine (hinv.checked p).of_not_holds (Bool.eq_false_iff.mpr fun hq => hp ?_)
    exact hinv.lock.eq_of_holds hq hholds

theorem countInv_boot {dev : Dev} (h : CountBounds dev) : CountInv (boot dev) :=
  ⟨lockInv_boot dev, h, fun _ => trivial⟩

end Kbuf
