import Kbuf.Device.Refinement

namespace Kbuf

open Circular FreeRunning

-- The statistics a device keeps, apart from the description of its ring.
@[ext] structure Meters where
  bytesProduced : BitVec 64
  bytesConsumed : BitVec 64
  msgsProduced : BitVec 64
  msgsConsumed : BitVec 64
  readSleeps : BitVec 64
  writeSleeps : BitVec 64
  peakCount : Nat
  deriving DecidableEq, Repr

def meters (dev : Dev) : Meters where
  bytesProduced := dev.bytesProduced
  bytesConsumed := dev.bytesConsumed
  msgsProduced := dev.msgsProduced
  msgsConsumed := dev.msgsConsumed
  readSleeps := dev.readSleeps
  writeSleeps := dev.writeSleeps
  peakCount := dev.peakCount

namespace Meters

-- Only a read that returns a length is counted.
def consume (m : Meters) : Except Errno Nat → Meters
  | .ok len =>
      { m with
        bytesConsumed := m.bytesConsumed + BitVec.ofNat 64 len
        msgsConsumed := m.msgsConsumed + 1 }
  | .error _ => m

-- `depth` is the number of queued messages once the new one is among them.
def produce (m : Meters) (depth : Nat) : Except Errno Nat → Meters
  | .ok len =>
      { m with
        bytesProduced := m.bytesProduced + BitVec.ofNat 64 len
        msgsProduced := m.msgsProduced + 1
        peakCount := max m.peakCount depth }
  | .error _ => m

-- What a call does to the statistics, told from its answer and from the number
-- of messages queued afterwards. A RESET is the one call this cannot tell.
def after (m : Meters) (depth : Nat) : Call → Ret → Meters
  | .read _, .bytes val _ => m.consume val
  | .write _, .size val => m.produce depth val
  | .resize _, .status (.ok ()) => { m with peakCount := 0 }
  | _, _ => m

end Meters

variable {dev : Dev}

theorem queue_of_spsc (hm : dev.mode = .SPSC) : queue dev = spscQueue dev := by
  simp only [queue, hm]

theorem queue_of_blocking (hm : dev.mode = .BLOCKING) : queue dev = blockingQueue dev := by
  simp only [queue, hm]

theorem Wellformed.blocking (h : Wellformed dev) (hm : dev.mode = .BLOCKING) :
    BlockingRing dev := by
  simpa only [Discipline, hm] using h.discipline

theorem ite_lt_eq_max (peak occ : Nat) : (if peak < occ then occ else peak) = max peak occ := by
  split <;> omega

section Transfers

theorem ringConsume_meters (u : UserRead) :
    meters (ringConsume dev u).1 = (meters dev).consume (ringConsume dev u).2.1 := by
  unfold ringConsume
  dsimp only
  split <;> rfl

theorem spscConsume_meters (u : UserRead) :
    meters (spscConsume dev u).1 = (meters dev).consume (spscConsume dev u).2.1 := by
  unfold spscConsume
  dsimp only
  split <;> rfl

-- The depth is that of the ring afterwards: `count` was incremented before the
-- peak was compared with it.
theorem ringProduce_meters (hg : Geometry dev) (hr : BlockingRing dev) (u : UserWrite)
    (hfull : ringIsFull dev = false) :
    meters (ringProduce dev u).1 =
      (meters dev).produce (blockingQueue (ringProduce dev u).1).length (ringProduce dev u).2 := by
  have hlt := hr.lt_of_not_full hg hfull
  have hcount := hr.count_nonneg
  have hnum := hg.num_lt
  have hocc : toUnsigned (dev.count + 1) = (dev.count + 1).toNat :=
    toUnsigned_of_bounds (by omega) (by omega)
  rw [blockingQueue, length_window]
  unfold ringProduce
  dsimp only
  split
  · rfl
  · simp only [meters, Meters.produce, Dev.setSlot, ite_lt_eq_max, hocc]

theorem spscProduce_meters (u : UserWrite) :
    meters (spscProduce dev u).1 =
      (meters dev).produce (spscQueue (spscProduce dev u).1).length (spscProduce dev u).2 := by
  rw [spscQueue, length_window]
  unfold spscProduce
  dsimp only
  split
  · rfl
  · simp only [meters, Meters.produce, Dev.setSlot, ite_lt_eq_max]
    rfl

end Transfers

section Calls

theorem kbufRead_meters (dev : Dev) (u : UserRead) (depth : Nat) :
    meters (kbufRead dev u).1 = (meters dev).after depth (.read u) (kbufRead dev u).2 := by
  unfold kbufRead
  cases dev.mode with
  | SPSC =>
      dsimp only
      split
      · rfl
      · exact spscConsume_meters u
  | BLOCKING =>
      dsimp only
      split
      · rfl
      · exact ringConsume_meters u

theorem kbufWrite_meters (h : Wellformed dev) (u : UserWrite) :
    meters (kbufWrite dev u).1 =
      (meters dev).after (queue (kbufWrite dev u).1).length (.write u) (kbufWrite dev u).2 := by
  unfold kbufWrite
  cases hm : dev.mode with
  | SPSC =>
      dsimp only
      split
      · rfl
      · rw [queue_of_spsc ((spscProduce_mode _).trans hm)]
        exact spscProduce_meters _
  | BLOCKING =>
      dsimp only
      split
      · rfl
      · rename_i hfull
        rw [queue_of_blocking ((ringProduce_mode _).trans hm)]
        exact ringProduce_meters h.geometry (h.blocking hm) _ (Bool.eq_false_iff.mpr hfull)

theorem iocResize_meters (rq : ResizeArg) (depth : Nat) :
    meters (iocResize dev rq).1 =
      (meters dev).after depth (.resize rq) (.status (iocResize dev rq).2) := by
  unfold iocResize
  split
  · rfl
  split
  · rfl
  split
  · rfl
  · rename_i hswap
    obtain ⟨-, rfl⟩ := resizeSwap_ok hswap
    rfl

theorem iocSmode_meters (arg : SmodeArg) : meters (iocSmode dev arg).1 = meters dev := by
  unfold iocSmode
  split
  · rfl
  split
  · rfl
  · rename_i hswitch
    obtain ⟨-, -, rfl⟩ := smodeSwitch_ok hswitch
    rfl

theorem exec_meters (h : Wellformed dev) (call : Call) (hc : call ≠ .reset) :
    meters (exec dev call).1 =
      (meters dev).after (queue (exec dev call).1).length call (exec dev call).2 := by
  cases call with
  | read u => exact kbufRead_meters dev u _
  | write u => exact kbufWrite_meters h u
  | resize rq => exact iocResize_meters rq _
  | smode arg => exact iocSmode_meters arg
  | reset => exact absurd rfl hc
  | getstats fault => rfl
  | poll => rfl

end Calls

section Outcomes

-- Whether a call with this answer has moved a message or touched the statistics.
def settles : Call → Ret → Bool
  | .read _, .bytes (.ok _) _ => true
  | .write _, .size (.ok _) => true
  | .resize _, .status (.ok _) => true
  | .reset, _ => true
  | _, _ => false

-- All that a call can do to the queue and to the statistics.
inductive Outcome (dev next : Dev) : Call → Ret → Prop
  | consumed (u : UserRead) (out message : List UInt8) (hq : queue dev = message :: queue next)
      (hn : next.numBuffers = dev.numBuffers)
      (hm : meters next = (meters dev).consume (.ok (min u.count message.length))) :
      Outcome dev next (.read u) (.bytes (.ok (min u.count message.length)) out)
  | produced (u : UserWrite) (message : List UInt8) (hq : queue next = queue dev ++ [message])
      (hn : next.numBuffers = dev.numBuffers)
      (hm : meters next = (meters dev).produce (queue next).length (.ok message.length)) :
      Outcome dev next (.write u) (.size (.ok message.length))
  | resized (rq : ResizeArg) (hq : queue dev = []) (hq' : queue next = [])
      (hm : meters next = { meters dev with peakCount := 0 }) :
      Outcome dev next (.resize rq) (.status (.ok ()))
  | reset (hnext : next = iocReset dev) : Outcome dev next .reset (.status (.ok ()))
  | quiet (call : Call) (ret : Ret) (hs : settles call ret = false) (hq : queue next = queue dev)
      (hn : next.numBuffers = dev.numBuffers) (hm : meters next = meters dev) :
      Outcome dev next call ret

theorem outcome_of_refused {call : Call} {ret : Ret} {next : Dev} (h : Wellformed dev)
    (h' : Wellformed next) (hs : settles call ret = false) (hnext : h'.fifo = h.fifo)
    (hm : meters next = meters dev) : Outcome dev next call ret :=
  .quiet call ret hs (congrArg Fifo.messages hnext) (congrArg Fifo.capacity hnext) hm

theorem read_outcome (h : Wellformed dev) (u : UserRead) :
    Outcome dev (kbufRead dev u).1 (.read u) (kbufRead dev u).2 := by
  have hm := kbufRead_meters dev u 0
  obtain ⟨h', hstep⟩ := exec_refined h (.read u)
  simp only [Fifo.Step, Fifo.ReadStep, exec] at hstep
  split at hstep
  · obtain ⟨hret, hnext⟩ := hstep
    rw [hret] at hm ⊢
    exact outcome_of_refused h h' rfl hnext hm
  · rename_i message rest hq
    split at hstep
    · obtain ⟨hret, hrest, hn, -⟩ := hstep
      rw [hret] at hm ⊢
      exact .consumed u _ message (hq.trans (congrArg (message :: ·) hrest.symm)) hn hm
    · obtain ⟨hret, hnext⟩ := hstep
      rw [hret] at hm ⊢
      exact outcome_of_refused h h' rfl hnext hm

theorem write_outcome (h : Wellformed dev) (u : UserWrite) :
    Outcome dev (kbufWrite dev u).1 (.write u) (kbufWrite dev u).2 := by
  have hm := kbufWrite_meters h u
  obtain ⟨h', hstep⟩ := exec_refined h (.write u)
  simp only [Fifo.Step, Fifo.WriteStep, exec] at hstep
  split at hstep
  · split at hstep
    · rename_i hfetched
      obtain ⟨hret, hq, hn, -⟩ := hstep
      have hlen : (u.ubuf.take (min u.count h.fifo.slotSize)).length =
          min u.count h.fifo.slotSize := by
        rw [List.length_take]
        omega
      rw [hret, ← hlen] at hm ⊢
      exact .produced u _ hq hn hm
    · obtain ⟨hret, hnext⟩ := hstep
      rw [hret] at hm ⊢
      exact outcome_of_refused h h' rfl hnext hm
  · obtain ⟨hret, hnext⟩ := hstep
    rw [hret] at hm ⊢
    exact outcome_of_refused h h' rfl hnext hm

theorem exec_outcome (h : Wellformed dev) (call : Call) :
    Outcome dev (exec dev call).1 call (exec dev call).2 := by
  obtain ⟨h', hstep⟩ := exec_refined h call
  cases call with
  | read u => exact read_outcome h u
  | write u => exact write_outcome h u
  | resize rq =>
      have hm := exec_meters h (.resize rq) (by simp)
      rcases hstep with ⟨hret, hq, hq', -⟩ | ⟨⟨e, hret⟩, hnext⟩
      · rw [hret] at hm ⊢
        exact .resized rq hq hq' hm
      · rw [hret] at hm ⊢
        exact outcome_of_refused h h' rfl hnext hm
  | smode arg =>
      have hnext : h'.fifo = h.fifo := by
        rcases hstep with ⟨-, -, hnext⟩ | ⟨-, hnext⟩
        · exact hnext
        · exact hnext
      exact outcome_of_refused h h' rfl hnext (iocSmode_meters arg)
  | reset => exact .reset rfl
  | getstats fault => exact .quiet _ _ rfl rfl rfl rfl
  | poll => exact .quiet _ _ rfl rfl rfl rfl

end Outcomes

end Kbuf
