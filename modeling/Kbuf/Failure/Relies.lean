import Kbuf.Blocking.Invariant
import Kbuf.Device.Refinement
import Kbuf.Machine.Contents
import Kbuf.Resize.Overflow
import Kbuf.Spsc.Runs

namespace Kbuf

open Interleaving FreeRunning

section Definitions

-- The path that a transfer has chosen by the mode it has sampled.
def Local.path : Local → Option Mode
  | .readBlocking .. | .writeBlocking .. => some .BLOCKING
  | .readSpsc .. | .writeSpsc .. => some .SPSC
  | _ => none

def Local.spscWriter : Local → Bool
  | .writeSpsc .. => true
  | _ => false

def Local.spscReader : Local → Bool
  | .readSpsc .. => true
  | _ => false

-- The lock-free transfers that a RESIZE would leave with an index or a slot of
-- the ring before it.
def Local.caught : Local → Bool
  | .writeSpsc _ _ (.copy ..) | .writeSpsc _ _ (.setLen _) | .writeSpsc _ _ (.publish _) => true
  | .readSpsc _ _ (.emptyCons prod) => prod ≠ 0
  | _ => false

-- What a process has made sure of when it is where it is, in either mode.
def Local.Relies (w : World) : Local → Prop
  | .readBlocking _ _ pc => w.dev.mode = .BLOCKING ∧ (pc = .consume → ringIsEmpty w.dev = false)
  | .writeBlocking _ u pc =>
      w.dev.mode = .BLOCKING ∧ (pc.unplaced = true → u.count ≤ w.dev.bufferSize) ∧
        (pc = .produce → ringIsFull w.dev = false)
  | .readSpsc _ u pc => w.dev.mode = .SPSC ∧ ConsumerOk w.dev.ring w.slotsPtr u pc
  | .writeSpsc _ u pc => w.dev.mode = .SPSC ∧ ProducerOk w.dev.ring w.slotsPtr u pc
  | .resize rq pc => pc.Prepared w rq
  | _ => True

-- What cannot be of two processes at the same time, and what a RESIZE or a switch that
-- goes through may find another process doing.
structure Alongside (w : World) (here there : Local) : Prop where
  lock : here.holds = true → there.holds = false
  writer : here.spscWriter = true → there.spscWriter = false
  reader : here.spscReader = true → there.spscReader = false
  owned : ∀ ptr, there.owned = some ptr → ptr ≠ w.slotsPtr ∧ ptr < w.nextPtr
  quiet : ∀ arg mode, here = .smode arg (.switch mode) → occupancy w.dev = 0 → there.path = none
  clear : ∀ rq ptr, here = .resize rq (.swap ptr) → occupancy w.dev = 0 → there.caught = false
  fits : ∀ rq ptr, here = .resize rq (.swap ptr) → occupancy w.dev = 0 →
    ∀ count, there.clamped = some count → count ≤ rq.bufferSize

-- What a step leaves behind for its own process and for the others.
structure MessageStep (w : World) (here : Local) (w' : World) (next : Local) : Prop where
  wellformed : Wellformed w'.dev
  delivered : w'.Delivered
  relies : next.Relies w'
  others : ∀ there : Local, Alongside w here there → there.Relies w → there.Relies w'

end Definitions

section Wellformed

variable {dev : Dev} {w : World}

theorem RingOk.wellformed (h : RingOk w) : Wellformed w.dev where
  geometry := h.geometry.of_eq rfl rfl rfl
  discipline := by
    unfold Discipline
    rw [h.mode]
    exact ⟨h.ring.power, h.ring.depth_le⟩

theorem BlockingDev.wellformed {n size : Nat} (h : BlockingDev n size dev) : Wellformed dev where
  geometry := h.geometry
  discipline := by
    unfold Discipline
    rw [h.mode]
    exact h.ring

theorem Wellformed.queue_eq_nil (h : Wellformed dev) (hempty : occupancy dev = 0) :
    queue dev = [] := by
  rw [occupancy_eq h] at hempty
  exact List.eq_nil_of_length_eq_zero hempty

end Wellformed

section Others

variable {w w' : World} {here next there : Local}

theorem Local.not_disturbed {size : Nat} (hcaught : there.caught = false)
    (hfits : ∀ count, there.clamped = some count → count ≤ size) :
    there.disturbed size = false := by
  cases there with
  | writeSpsc nonblock u pc =>
      cases pc with
      | full | fullCons | sleep | wait | produce =>
          exact decide_eq_false (Nat.not_lt.mpr (hfits u.count rfl))
      | copy | setLen | publish => cases hcaught
      | clamp | bytesLoad | bytesStore | msgsLoad | msgsStore | occ | peak | peakStore | wake =>
          rfl
  | readSpsc nonblock u pc =>
      cases pc with
      | emptyCons => exact hcaught
      | empty | sleep | wait | consume | len | copy | publish | bytesLoad | bytesStore | msgsLoad
      | msgsStore | trace | wake => rfl
  | idle | readEntry | readBlocking | writeEntry | writeBlocking | resize | smode | reset
  | getstats | poll | done => rfl

theorem Local.Relies.of_contents (hsame : w'.dev.contents = w.dev.contents)
    (hptr : w'.slotsPtr = w.slotsPtr)
    (harrays : ∀ ptr, there.owned = some ptr → w'.array ptr = w.array ptr) (h : there.Relies w) :
    there.Relies w' := by
  obtain ⟨_, _, _, _, _, _, _, hdev⟩ := Dev.exists_of_contents hsame
  cases there with
  | readBlocking | writeBlocking =>
      unfold Local.Relies
      rw [hdev]
      exact h
  | readSpsc | writeSpsc =>
      unfold Local.Relies
      rw [hdev, hptr]
      exact h
  | resize => exact ResizePc.Prepared.of_arrays h harrays
  | idle | readEntry | writeEntry | smode | reset | getstats | poll | done => trivial

-- A critical section of the blocking path keeps the others out.
theorem Local.Relies.locked {dev : Dev} {log : List Event} (hmode : w.dev.mode = .BLOCKING)
    (hd : BlockingDev w.dev.numBuffers w.dev.bufferSize dev) (hlock : there.holds = false)
    (howned : ∀ ptr, there.owned = some ptr → ptr ≠ w.slotsPtr ∧ ptr < w.nextPtr)
    (h : there.Relies w) : there.Relies { w with dev := dev, log := log } := by
  cases there with
  | readBlocking nonblock u pc =>
      refine ⟨hd.mode, ?_⟩
      rintro rfl
      cases hlock
  | writeBlocking nonblock u pc =>
      refine ⟨hd.mode, fun hun => hd.size.symm ▸ h.2.1 hun, ?_⟩
      rintro rfl
      cases hlock
  | readSpsc | writeSpsc => cases hmode.symm.trans h.1
  | resize =>
      refine ResizePc.Prepared.of_arrays h fun ptr hptr => ?_
      have hne := (howned ptr hptr).1
      simp only [World.array, if_neg hne]
  | idle | readEntry | writeEntry | smode | reset | getstats | poll | done => trivial

theorem MessageStep.quiet (hdev : Wellformed w.dev) (hdel : w.Delivered)
    (hsame : w'.dev.contents = w.dev.contents) (hptr : w'.slotsPtr = w.slotsPtr)
    (harrays : ∀ ptr, ptr ≠ w.slotsPtr → ptr < w.nextPtr → w'.array ptr = w.array ptr)
    (hlog : w'.log = w.log) (hnext : next.Relies w') : MessageStep w here w' next where
  wellformed := hdev.of_contents hsame
  delivered := hdel.of_eq hlog (queue_of_contents hsame)
  relies := hnext
  others _ hside hthere := hthere.of_contents hsame hptr fun ptr ho =>
    harrays ptr (hside.owned ptr ho).1 (hside.owned ptr ho).2

-- A step that only takes or releases the lock, wakes somebody or counts a sleep.
theorem MessageStep.still (hdev : Wellformed w.dev) (hdel : w.Delivered) (hl : SameLayout w w')
    (hsame : w'.dev.contents = w.dev.contents) (hlog : w'.log = w.log)
    (hnext : next.Relies w') : MessageStep w here w' next :=
  .quiet hdev hdel hsame hl.slotsPtr (fun ptr _ _ => hl.array ptr) hlog hnext

end Others

end Kbuf
