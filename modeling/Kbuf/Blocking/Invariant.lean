import Kbuf.Machine.Count

namespace Kbuf

open Interleaving

variable {n size : Nat}

-- A blocking ring of a fixed geometry.
structure BlockingDev (n size : Nat) (dev : Dev) : Prop where
  mode : dev.mode = .BLOCKING
  num : dev.numBuffers = n
  size : dev.bufferSize = size
  geometry : Geometry dev
  ring : BlockingRing dev

theorem Wellformed.blockingDev {dev : Dev} (h : Wellformed dev) (hm : dev.mode = .BLOCKING) :
    BlockingDev dev.numBuffers dev.bufferSize dev where
  mode := hm
  num := rfl
  size := rfl
  geometry := h.geometry
  ring := by simpa only [Discipline, hm] using h.discipline

section CriticalSection

variable {w : World} {me : Nat}

theorem BlockingDev.queue_eq {dev : Dev} (h : BlockingDev n size dev) :
    queue dev = blockingQueue dev := by
  simp only [queue, h.mode]

theorem BlockingDev.ringConsume (h : BlockingDev n size w.dev) (u : UserRead)
    (hg : Geometry (ringConsume w.dev u).1) (hr : BlockingRing (ringConsume w.dev u).1) :
    BlockingDev n size (ringConsume w.dev u).1 where
  mode := (ringConsume_mode u).trans h.mode
  num := (ringConsume_numBuffers u).trans h.num
  size := (ringConsume_bufferSize u).trans h.size
  geometry := hg
  ring := hr

theorem BlockingDev.ringProduce (h : BlockingDev n size w.dev) (u : UserWrite)
    (hg : Geometry (ringProduce w.dev u).1) (hr : BlockingRing (ringProduce w.dev u).1) :
    BlockingDev n size (ringProduce w.dev u).1 where
  mode := (ringProduce_mode u).trans h.mode
  num := (ringProduce_numBuffers u).trans h.num
  size := (ringProduce_bufferSize u).trans h.size
  geometry := hg
  ring := hr

-- A read in its critical section faults and changes nothing, or takes the oldest message.
theorem consumeStep_cases (h : BlockingDev n size w.dev) (hne : ringIsEmpty w.dev = false)
    (u : UserRead) :
    (∃ out, consumeStep w me u = (w, .bytes (.error .EFAULT) out)) ∨
      ∃ dev message, BlockingDev n size dev ∧ queue w.dev = message :: queue dev ∧
        consumeStep w me u =
          ({ w with dev := dev, log := w.log ++ [.consumed me u.count (message.take u.count)] },
            .bytes (.ok (message.take u.count).length) (message.take u.count)) := by
  have hlen := length_message h.geometry h.ring.readPos_lt
  by_cases hu : u.room < min u.count (w.dev.slot w.dev.readPos).len
  · left
    have hc := ringConsume_fault u hu
    refine ⟨(w.dev.slot w.dev.readPos).data.take u.room, ?_⟩
    simp only [consumeStep, hc]
  · right
    obtain ⟨hval, hg, hr, hq, -⟩ := ringConsume_ok h.geometry h.ring hne u (by omega)
    have hd := h.ringConsume u hg hr
    refine ⟨_, w.dev.message w.dev.readPos, hd, ?_, ?_⟩
    · rw [h.queue_eq, hd.queue_eq, hq]
    · rw [List.length_take, hlen]
      rcases hc : Kbuf.ringConsume w.dev u with ⟨dev, val, out⟩
      rw [hc] at hval
      obtain ⟨rfl, rfl⟩ := Prod.mk.inj hval
      simp only [consumeStep, hc]

-- A write in its critical section faults and keeps the queue, or appends its message.
theorem produceStep_cases (h : BlockingDev n size w.dev) (hfull : ringIsFull w.dev = false)
    (u : UserWrite) (hsize : u.count ≤ size) :
    (∃ dev, BlockingDev n size dev ∧ queue dev = queue w.dev ∧
        produceStep w me u = ({ w with dev := dev }, .size (.error .EFAULT))) ∨
      ∃ dev, BlockingDev n size dev ∧ queue dev = queue w.dev ++ [u.ubuf.take u.count] ∧
        u.count ≤ u.ubuf.length ∧
        produceStep w me u =
          ({ w with dev := dev, log := w.log ++ [.produced me (u.ubuf.take u.count)] },
            .size (.ok u.count)) := by
  by_cases hu : u.ubuf.length < u.count
  · left
    obtain ⟨hval, hg, hr, hq⟩ := ringProduce_fault h.geometry h.ring hfull u hu
    have hd := h.ringProduce u hg hr
    refine ⟨_, hd, ?_, ?_⟩
    · rw [h.queue_eq, hd.queue_eq, hq]
    · rcases hp : Kbuf.ringProduce w.dev u with ⟨dev, val⟩
      rw [hp] at hval
      obtain rfl := hval
      simp only [produceStep, hp]
  · right
    obtain ⟨hval, hg, hr, hq, -⟩ :=
      ringProduce_ok h.geometry h.ring hfull u (h.size ▸ hsize) (by omega)
    have hd := h.ringProduce u hg hr
    refine ⟨_, hd, ?_, by omega, ?_⟩
    · rw [h.queue_eq, hd.queue_eq, hq]
    · rcases hp : Kbuf.ringProduce w.dev u with ⟨dev, val⟩
      rw [hp] at hval
      obtain rfl := hval
      simp only [produceStep, hp]

end CriticalSection

def Request.isTransfer : Request → Bool
  | .read .. | .write .. => true
  | .resize _ | .smode _ | .reset | .getstats _ | .poll => false

-- The points of a write that come after its clamp.
def WritePc.clamped : WritePc → Bool
  | .lock | .clamp => false
  | .loop | .unlockSleep | .wait _ | .relock | .produce | .unlock _ | .wake _ => true

-- Where a process can be while everybody reads and writes in blocking mode.
def Local.Transferring (size : Nat) : Local → Prop
  | .idle | .readEntry .. | .readBlocking .. | .writeEntry .. | .done _ => True
  | .writeBlocking _ u pc => pc.clamped = true → u.count ≤ size
  | .readSpsc .. | .writeSpsc .. | .resize .. | .smode .. | .reset _ | .getstats .. | .poll _ =>
      False

section Steps

variable {w w' : World} {here next : Local} {me : Nat}

theorem BlockingDev.sleeps {dev : Dev} (h : BlockingDev n size dev) (reads writes : BitVec 64) :
    BlockingDev n size { dev with readSleeps := reads, writeSleeps := writes } where
  mode := h.mode
  num := h.num
  size := h.size
  geometry := h.geometry.of_eq rfl rfl rfl
  ring := ⟨h.ring.count_nonneg, h.ring.count_le, h.ring.readPos_lt, h.ring.writePos_eq⟩

theorem ReadMove.blocking_step {nonblock : Bool} {u : UserRead} {pc : ReadPc}
    {after : Next ReadPc} (hd : BlockingDev n size w.dev) (hdel : w.Delivered)
    (hc : (Local.readBlocking nonblock u pc).Checked w.dev)
    (h : ReadMove nonblock u me w pc w' after) :
    BlockingDev n size w'.dev ∧ w'.Delivered ∧
      (after.lift (.readBlocking nonblock u)).Transferring size := by
  cases h with
  | sleep => exact ⟨hd.sleeps _ _, hdel.of_eq rfl rfl, trivial⟩
  | @wait _ _ out hw =>
      refine ⟨hw.dev_eq ▸ hd, hdel.of_eq hw.log_eq (by rw [hw.dev_eq]), ?_⟩
      cases out <;> trivial
  | consume =>
      rcases consumeStep_cases hd hc u with ⟨out, hs⟩ | ⟨dev, message, hd', hq, hs⟩
      · rw [hs]
        exact ⟨hd, hdel, trivial⟩
      · rw [hs]
        exact ⟨hd', hdel.consumed hq rfl, trivial⟩
  | lock | lockSignal | again | ready | unlockSleep | unlockOk | unlockError | wake =>
      exact ⟨hd, hdel.of_eq rfl rfl, trivial⟩

theorem WriteMove.blocking_step {nonblock : Bool} {u : UserWrite} {pc : WritePc}
    {after : Next (UserWrite × WritePc)} (hd : BlockingDev n size w.dev) (hdel : w.Delivered)
    (hc : (Local.writeBlocking nonblock u pc).Checked w.dev)
    (hu : pc.clamped = true → u.count ≤ size) (h : WriteMove nonblock u me w pc w' after) :
    BlockingDev n size w'.dev ∧ w'.Delivered ∧
      (after.lift fun (u, pc) => Local.writeBlocking nonblock u pc).Transferring size := by
  cases h with
  | lock => exact ⟨hd, hdel.of_eq rfl rfl, fun hclamped => by cases hclamped⟩
  | clamp =>
      refine ⟨hd, hdel, fun _ => ?_⟩
      rw [clamp_count, hd.size]
      exact Nat.min_le_right _ _
  | sleep => exact ⟨hd.sleeps _ _, hdel.of_eq rfl rfl, fun _ => hu rfl⟩
  | @wait _ _ out hw =>
      refine ⟨hw.dev_eq ▸ hd, hdel.of_eq hw.log_eq (by rw [hw.dev_eq]), ?_⟩
      cases out with
      | wait | woken => exact fun _ => hu rfl
      | interrupted => trivial
  | produce =>
      rcases produceStep_cases hd hc u (hu rfl) with ⟨dev, hd', hq, hs⟩ | ⟨dev, hd', hq, -, hs⟩
      · rw [hs]
        exact ⟨hd', hdel.of_eq rfl hq, fun _ => hu rfl⟩
      · rw [hs]
        exact ⟨hd', hdel.produced hq, fun _ => hu rfl⟩
  | again | ready | unlockSleep | relock | unlockOk =>
      exact ⟨hd, hdel.of_eq rfl rfl, fun _ => hu rfl⟩
  | lockSignal | relockSignal | unlockError | wake => exact ⟨hd, hdel.of_eq rfl rfl, trivial⟩

theorem Move.blocking_step {choice : Choice} (hd : BlockingDev n size w.dev)
    (hdel : w.Delivered) (hc : here.Checked w.dev) (ht : here.Transferring size)
    (hstart : ∀ request, choice = .start request → request.isTransfer = true)
    (h : Move me w choice here w' next) :
    BlockingDev n size w'.dev ∧ w'.Delivered ∧ next.Transferring size := by
  cases h with
  | @enter _ request _ =>
      have hreq := hstart request rfl
      refine ⟨hd, hdel, ?_⟩
      cases request with
      | read | write => trivial
      | resize | smode | reset | getstats | poll => cases hreq
  | readSampleSpsc hm | writeSampleSpsc hm => rw [hd.mode] at hm; cases hm
  | readSampleBlocking => exact ⟨hd, hdel, trivial⟩
  | writeSampleBlocking => exact ⟨hd, hdel, fun hclamped => by cases hclamped⟩
  | readBlocking h => exact h.blocking_step hd hdel hc
  | writeBlocking h => exact h.blocking_step hd hdel hc ht
  | readSpsc | writeSpsc | resize | smode | reset | getstats | poll => exact ht.elim

end Steps

structure BlockingInv (n size : Nat) (s : System) : Prop where
  count : CountInv s
  dev : BlockingDev n size s.shared.dev
  delivered : s.shared.Delivered
  transferring : ∀ p, (s.locals p).Transferring size

theorem blockingInv_step {s t : System} {act : Act Choice} (hinv : BlockingInv n size s)
    (hstart : Starting (fun _ request => request.isTransfer = true) s act)
    (h : step driver s act = some t) : BlockingInv n size t := by
  have hcount := countInv_step hinv.count h
  obtain ⟨w, next, hmove, rfl⟩ := step_move h
  obtain ⟨hd, hdel, hnext⟩ := hmove.blocking_step hinv.dev hinv.delivered
    (hinv.count.checked act.pid) (hinv.transferring act.pid) hstart
  exact ⟨hcount, hd, hdel, State.forall_put
    (P := fun _ (here : Local) => here.Transferring size) hnext fun p _ => hinv.transferring p⟩

theorem blockingInv_boot {dev : Dev} (h : Wellformed dev) (hm : dev.mode = .BLOCKING)
    (hq : queue dev = []) : BlockingInv dev.numBuffers dev.bufferSize (boot dev) where
  count := countInv_boot ((h.blockingDev hm).ring.countBounds h.geometry)
  dev := h.blockingDev hm
  delivered := delivered_boot hq
  transferring _ := trivial

end Kbuf
