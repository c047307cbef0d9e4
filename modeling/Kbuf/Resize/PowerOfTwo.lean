import Kbuf.Machine.History

namespace Kbuf

open Interleaving

-- What the ioctls promise about the dimensions of the ring.
structure Dimensions (dev : Dev) : Prop where
  num_pos : 1 ≤ dev.numBuffers
  num_le : dev.numBuffers ≤ KBUF_MAX_NUM_BUFFERS
  size_pos : 1 ≤ dev.bufferSize
  size_le : dev.bufferSize ≤ KBUF_MAX_BUFFER_SIZE
  power : dev.mode = .SPSC → isPowerOf2 dev.numBuffers = true

-- A resize keeps the bounds it has tested, but not the mode it has seen.
def Local.Validated : Local → Prop
  | .resize rq pc => pc ≠ .check → rq.Valid
  | _ => True

-- The locked part of a resize that goes through in SPSC mode has a power of two.
def PowerInSpsc (s : System) (act : Act Choice) : Prop :=
  ∀ rq ptr, s.locals act.pid = .resize rq (.swap ptr) → occupancy s.shared.dev = 0 →
    s.shared.dev.mode = .SPSC → isPowerOf2 rq.numBuffers = true

section Steps

variable {w w' : World} {here next : Local} {me : Nat}

theorem Dimensions.of_eq {dev other : Dev} (h : Dimensions dev)
    (hn : other.numBuffers = dev.numBuffers) (hs : other.bufferSize = dev.bufferSize)
    (hm : other.mode = dev.mode) : Dimensions other where
  num_pos := hn ▸ h.num_pos
  num_le := hn ▸ h.num_le
  size_pos := hs ▸ h.size_pos
  size_le := hs ▸ h.size_le
  power := by rw [hn, hm]; exact h.power

theorem ResizeMove.dimensions {rq : ResizeArg} {pc : ResizePc} {after : Next ResizePc}
    (hd : Dimensions w.dev) (hv : (Local.resize rq pc).Validated)
    (hok : ∀ ptr, pc = .swap ptr → occupancy w.dev = 0 → w.dev.mode = .SPSC →
      isPowerOf2 rq.numBuffers = true)
    (h : ResizeMove rq me w pc w' after) :
    Dimensions w'.dev ∧ (after.lift (.resize rq)).Validated := by
  cases h with
  | reject | nomem | freeNew | wake => exact ⟨hd, trivial⟩
  | accept hcheck => exact ⟨hd, fun _ => resizeCheck_valid hcheck⟩
  | alloc | lock | busy | unlockBusy | unlock | freeOld => exact ⟨hd, fun _ => hv (by simp)⟩
  | @swap ptr ho =>
      have hvalid := hv (by simp)
      refine ⟨⟨hvalid.num_pos, hvalid.num_le, hvalid.size_pos, hvalid.size_le, ?_⟩, fun _ => hvalid⟩
      exact hok ptr rfl ho

theorem Move.dimensions {choice : Choice} (hd : Dimensions w.dev) (hv : here.Validated)
    (hok : ∀ rq ptr, here = .resize rq (.swap ptr) → occupancy w.dev = 0 → w.dev.mode = .SPSC →
      isPowerOf2 rq.numBuffers = true)
    (h : Move me w choice here w' next) : Dimensions w'.dev ∧ next.Validated := by
  cases h with
  | @enter _ request _ =>
      refine ⟨hd, ?_⟩
      cases request with
      | resize => exact fun hne => absurd rfl hne
      | read | write | smode | reset | getstats | poll => trivial
  | readSampleSpsc | readSampleBlocking | writeSampleSpsc | writeSampleBlocking =>
      exact ⟨hd, trivial⟩
  | readBlocking h =>
      cases h with
      | @wait _ _ out hw => exact ⟨hw.dev_eq ▸ hd, by cases out <;> trivial⟩
      | consume =>
          exact ⟨hd.of_eq (consumeStep_numBuffers ..) (consumeStep_bufferSize ..)
            (consumeStep_mode ..), trivial⟩
      | lock | lockSignal | again | sleep | ready | unlockSleep | unlockOk | unlockError | wake =>
          exact ⟨hd.of_eq rfl rfl rfl, trivial⟩
  | writeBlocking h =>
      cases h with
      | @wait _ _ out hw => exact ⟨hw.dev_eq ▸ hd, by cases out <;> trivial⟩
      | produce =>
          exact ⟨hd.of_eq (produceStep_numBuffers ..) (produceStep_bufferSize ..)
            (produceStep_mode ..), trivial⟩
      | lock | lockSignal | clamp | again | sleep | ready | unlockSleep | relock | relockSignal
      | unlockOk | unlockError | wake => exact ⟨hd.of_eq rfl rfl rfl, trivial⟩
  | readSpsc h =>
      cases h with
      | @wait _ _ out hw => exact ⟨hw.dev_eq ▸ hd, by cases out <;> trivial⟩
      | empty | again | block | ready | sleep | consume | len | copyByte | copyFault | copyDone
      | publish | bytesLoad | bytesStore | msgsLoad | msgsStore | trace | wake =>
          exact ⟨hd.of_eq rfl rfl rfl, trivial⟩
  | writeSpsc h =>
      cases h with
      | @wait _ _ out hw => exact ⟨hw.dev_eq ▸ hd, by cases out <;> trivial⟩
      | clamp | full | again | block | ready | sleep | produce | copyByte | copyFault | copyDone
      | setLen | publish | bytesLoad | bytesStore | msgsLoad | msgsStore | occ | peakHigher
      | peakKept | peakStore | wake => exact ⟨hd.of_eq rfl rfl rfl, trivial⟩
  | resize h => exact h.dimensions hd hv fun ptr hpc => hok _ ptr (by rw [hpc])
  | smode h =>
      cases h with
      | switch ho hp =>
          exact ⟨⟨hd.num_pos, hd.num_le, hd.size_pos, hd.size_le, hp⟩, trivial⟩
      | reject | accept | lock | refuse | unlock => exact ⟨hd, trivial⟩
  | reset h =>
      cases h with
      | @store field =>
          obtain ⟨_, _, _, _, _, _, _, heq⟩ := resetStore_frame w.dev field
          rw [heq]
          exact ⟨hd.of_eq rfl rfl rfl, trivial⟩
      | lock | unlock => exact ⟨hd, trivial⟩
  | getstats h => cases h <;> exact ⟨hd, trivial⟩
  | poll h => cases h <;> exact ⟨hd, trivial⟩

end Steps

structure DimensionsInv (s : System) : Prop where
  dimensions : Dimensions s.shared.dev
  validated : ∀ p, (s.locals p).Validated

section Runs

variable {dev : Dev} {acts : List (Act Choice)} {s t : System}

theorem dimensionsInv_step {act : Act Choice} (hinv : DimensionsInv s) (hok : PowerInSpsc s act)
    (h : step driver s act = some t) : DimensionsInv t := by
  obtain ⟨w, next, hmove, rfl⟩ := step_move h
  obtain ⟨hd, hnext⟩ := hmove.dimensions hinv.dimensions (hinv.validated act.pid) hok
  exact ⟨hd, State.forall_put (P := fun _ (here : Local) => here.Validated) hnext
    fun p _ => hinv.validated p⟩

theorem dimensionsInv_boot (h : Wellformed dev) : DimensionsInv (boot dev) where
  dimensions :=
    { num_pos := h.geometry.num_pos
      num_le := h.geometry.num_le
      size_pos := h.geometry.size_pos
      size_le := h.geometry.size_le
      power := by
        intro hm
        change dev.mode = .SPSC at hm
        have hr : SpscRing dev := by simpa only [Discipline, hm] using h.discipline
        exact (isPowerOf2_iff _).mpr hr.power }
  validated _ := trivial

-- Whatever calls are made, as long as no resize that tested the bounds in
-- blocking mode swaps a forbidden size into an SPSC ring.
theorem spsc_capacity_is_power_of_two (hdev : Wellformed dev)
    (hok : Along driver PowerInSpsc (boot dev) acts) (hrun : run driver (boot dev) acts = some s) :
    (s.shared.dev.mode = .SPSC → s.shared.dev.numBuffers.isPowerOfTwo) ∧
      (1 ≤ s.shared.dev.numBuffers ∧ s.shared.dev.numBuffers ≤ KBUF_MAX_NUM_BUFFERS) ∧
      1 ≤ s.shared.dev.bufferSize ∧ s.shared.dev.bufferSize ≤ KBUF_MAX_BUFFER_SIZE := by
  have hinv : DimensionsInv s :=
    run_invariant (fun _ _ _ hinv hok h => dimensionsInv_step hinv hok h) (dimensionsInv_boot hdev)
      hok hrun
  obtain ⟨hn, hn', hs, hs', hpower⟩ := hinv.dimensions
  exact ⟨fun hm => (isPowerOf2_iff _).mp (hpower hm), ⟨hn, hn'⟩, hs, hs'⟩

end Runs

-- A resize tests its argument in blocking mode, the mode is switched to SPSC,
-- and the resize goes on to swap its array in.
def resizeAcrossSwitch (numBuffers : Nat) : List (Act Choice) :=
  ⟨0, .start (.resize ⟨false, numBuffers, 1, fun _ => true⟩)⟩ :: proceed 0 2 ++
    ⟨1, .start (.smode ⟨false, 1⟩)⟩ :: proceed 1 4 ++ proceed 0 2

theorem three_buffers_in_spsc :
    ∃ s, run driver (boot freshDev) (resizeAcrossSwitch 3) = some s ∧
      s.shared.dev.mode = .SPSC ∧ ¬ s.shared.dev.numBuffers.isPowerOfTwo := by
  obtain ⟨s, hrun, hend⟩ := Option.map_eq_some_iff.mp
    (show (run driver (boot freshDev) (resizeAcrossSwitch 3)).map
      (fun s => (s.shared.dev.mode, s.shared.dev.numBuffers)) = some (.SPSC, 3) from rfl)
  obtain ⟨hmode, hnum⟩ := Prod.mk.inj hend
  refine ⟨s, hrun, hmode, ?_⟩
  rw [hnum, ← isPowerOf2_iff]
  decide

def powerInSpscAt (s : System) (act : Act Choice) : Bool :=
  match s.locals act.pid with
  | .resize rq (.swap _) => isPowerOf2 rq.numBuffers
  | _ => true

theorem spsc_capacity_is_power_of_two_four :
    ∃ s, run driver (boot freshDev) (resizeAcrossSwitch 4) = some s ∧
      s.shared.dev.mode = .SPSC ∧ s.shared.dev.numBuffers.isPowerOfTwo := by
  obtain ⟨s, hrun, hmode⟩ := Option.map_eq_some_iff.mp
    (show (run driver (boot freshDev) (resizeAcrossSwitch 4)).map
      (fun s => s.shared.dev.mode) = some .SPSC from rfl)
  have hdev : Wellformed freshDev :=
    emptyDev_wellformed .BLOCKING _ _ (by decide) (by decide) (by decide) (by decide) (by decide)
  have hok : Along driver PowerInSpsc (boot freshDev) (resizeAcrossSwitch 4) := by
    refine along_of_checkAlong (fun s act _ hcheck rq ptr hswap _ _ => ?_) (fun _ _ => rfl)
      (show ∀ act ∈ resizeAcrossSwitch 4, act.pid < 2 by decide)
      (show checkAlong driver powerInSpscAt _ _ = true from rfl)
    simpa only [powerInSpscAt, hswap] using hcheck
  exact ⟨s, hrun, hmode, (spsc_capacity_is_power_of_two hdev hok hrun).1 hmode⟩

end Kbuf
