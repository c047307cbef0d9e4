import Kbuf.Device.Lemmas
import Kbuf.Machine.Moves

namespace Kbuf

-- A critical section changes the device and the history, and nothing else.
theorem consumeStep_world (w : World) (me : Nat) (u : UserRead) :
    ∃ log, (consumeStep w me u).1 = { w with dev := (ringConsume w.dev u).1, log := log } := by
  unfold consumeStep
  split
  · rename_i h
    exact ⟨_, by rw [h]⟩
  · rename_i h
    exact ⟨_, by rw [h]⟩

theorem produceStep_world (w : World) (me : Nat) (u : UserWrite) :
    ∃ log, (produceStep w me u).1 = { w with dev := (ringProduce w.dev u).1, log := log } := by
  unfold produceStep
  split
  · rename_i h
    exact ⟨_, by rw [h]⟩
  · rename_i h
    exact ⟨_, by rw [h]⟩

theorem consumeStep_ret (w : World) (me : Nat) (u : UserRead) :
    (consumeStep w me u).2 = .bytes (ringConsume w.dev u).2.1 (ringConsume w.dev u).2.2 := by
  unfold consumeStep
  split
  · rename_i h
    rw [h]
  · rename_i h
    rw [h]

theorem produceStep_ret (w : World) (me : Nat) (u : UserWrite) :
    (produceStep w me u).2 = .size (ringProduce w.dev u).2 := by
  unfold produceStep
  split
  · rename_i h
    rw [h]
  · rename_i h
    rw [h]

section Consume

variable (w : World) (me : Nat) (u : UserRead)

theorem consumeStep_lock : (consumeStep w me u).1.lock = w.lock := by
  obtain ⟨log, h⟩ := consumeStep_world w me u
  rw [h]

theorem consumeStep_waiters (wq : Wq) : (consumeStep w me u).1.waiters wq = w.waiters wq := by
  obtain ⟨log, h⟩ := consumeStep_world w me u
  rw [h]
  cases wq <;> rfl

theorem consumeStep_mode : (consumeStep w me u).1.dev.mode = w.dev.mode := by
  obtain ⟨log, h⟩ := consumeStep_world w me u
  rw [h]
  exact ringConsume_mode u

theorem consumeStep_numBuffers : (consumeStep w me u).1.dev.numBuffers = w.dev.numBuffers := by
  obtain ⟨log, h⟩ := consumeStep_world w me u
  rw [h]
  exact ringConsume_numBuffers u

theorem consumeStep_bufferSize : (consumeStep w me u).1.dev.bufferSize = w.dev.bufferSize := by
  obtain ⟨log, h⟩ := consumeStep_world w me u
  rw [h]
  exact ringConsume_bufferSize u

theorem consumeStep_writePos : (consumeStep w me u).1.dev.writePos = w.dev.writePos := by
  obtain ⟨log, h⟩ := consumeStep_world w me u
  rw [h]
  dsimp only [ringConsume]
  split <;> rfl

theorem consumeStep_slots : (consumeStep w me u).1.dev.slots = w.dev.slots := by
  obtain ⟨log, h⟩ := consumeStep_world w me u
  rw [h]
  dsimp only [ringConsume]
  split <;> rfl

end Consume

section Produce

variable (w : World) (me : Nat) (u : UserWrite)

theorem produceStep_lock : (produceStep w me u).1.lock = w.lock := by
  obtain ⟨log, h⟩ := produceStep_world w me u
  rw [h]

theorem produceStep_waiters (wq : Wq) : (produceStep w me u).1.waiters wq = w.waiters wq := by
  obtain ⟨log, h⟩ := produceStep_world w me u
  rw [h]
  cases wq <;> rfl

theorem produceStep_mode : (produceStep w me u).1.dev.mode = w.dev.mode := by
  obtain ⟨log, h⟩ := produceStep_world w me u
  rw [h]
  exact ringProduce_mode u

theorem produceStep_numBuffers : (produceStep w me u).1.dev.numBuffers = w.dev.numBuffers := by
  obtain ⟨log, h⟩ := produceStep_world w me u
  rw [h]
  exact ringProduce_numBuffers u

theorem produceStep_bufferSize : (produceStep w me u).1.dev.bufferSize = w.dev.bufferSize := by
  obtain ⟨log, h⟩ := produceStep_world w me u
  rw [h]
  exact ringProduce_bufferSize u

end Produce

theorem resetStore_frame (dev : Dev) (field : Nat) :
    ∃ peak bytes bytes' msgs msgs' reads writes, resetStore dev field =
      { dev with
        peakCount := peak
        bytesProduced := bytes
        bytesConsumed := bytes'
        msgsProduced := msgs
        msgsConsumed := msgs'
        readSleeps := reads
        writeSleeps := writes } := by
  unfold resetStore
  split <;> exact ⟨_, _, _, _, _, _, _, rfl⟩

end Kbuf
