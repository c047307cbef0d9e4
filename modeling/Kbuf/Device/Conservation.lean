import Kbuf.Device.Meters

namespace Kbuf

def queuedBytes (dev : Dev) : Nat := ((queue dev).map List.length).sum

-- What the counters are measured against: the messages and bytes that were
-- queued at the last RESET, and the bytes that short reads have dropped since.
structure Account where
  msgs : Nat
  bytes : Nat
  discarded : Nat
  deriving DecidableEq, Repr

-- A read returns the head of one message, the rest of it is gone.
def Account.after (acc : Account) (dev : Dev) (call : Call) : Account :=
  match call, (exec dev call).2 with
  | .reset, _ => ⟨(queue dev).length, queuedBytes dev, 0⟩
  | .read _, .bytes (.ok len) _ =>
      { acc with discarded := acc.discarded + (((queue dev).headD []).length - len) }
  | _, _ => acc

def accountAll (acc : Account) (dev : Dev) : List Call → Account
  | [] => acc
  | call :: calls => accountAll (acc.after dev call) (exec dev call).1 calls

structure Conserved (acc : Account) (dev : Dev) : Prop where
  msgs : dev.msgsProduced + BitVec.ofNat 64 acc.msgs =
    dev.msgsConsumed + BitVec.ofNat 64 (queue dev).length
  bytes : dev.bytesProduced + BitVec.ofNat 64 acc.bytes =
    dev.bytesConsumed + BitVec.ofNat 64 (queuedBytes dev) + BitVec.ofNat 64 acc.discarded

variable {acc : Account} {dev next : Dev}

-- Nothing that the law speaks of has moved, except perhaps the peak.
theorem Conserved.of_quiet (h : Conserved acc dev) (hq : queue next = queue dev) {peak : Nat}
    (hm : meters next = { meters dev with peakCount := peak }) : Conserved acc next := by
  have hmp : next.msgsProduced = dev.msgsProduced := congrArg Meters.msgsProduced hm
  have hmc : next.msgsConsumed = dev.msgsConsumed := congrArg Meters.msgsConsumed hm
  have hbp : next.bytesProduced = dev.bytesProduced := congrArg Meters.bytesProduced hm
  have hbc : next.bytesConsumed = dev.bytesConsumed := congrArg Meters.bytesConsumed hm
  constructor
  · rw [hmp, hmc, hq]
    exact h.msgs
  · rw [hbp, hbc, queuedBytes, hq]
    exact h.bytes

-- The oldest message leaves; `len` of its bytes are counted, the others dropped.
theorem Conserved.consume (h : Conserved acc dev) {message : List UInt8} {len : Nat}
    (hq : queue dev = message :: queue next) (hlen : len ≤ message.length)
    (hm : meters next = (meters dev).consume (.ok len)) :
    Conserved { acc with discarded := acc.discarded + (message.length - len) } next := by
  have hmp : next.msgsProduced = dev.msgsProduced := congrArg Meters.msgsProduced hm
  have hmc : next.msgsConsumed = dev.msgsConsumed + 1 := congrArg Meters.msgsConsumed hm
  have hbp : next.bytesProduced = dev.bytesProduced := congrArg Meters.bytesProduced hm
  have hbc : next.bytesConsumed = dev.bytesConsumed + BitVec.ofNat 64 len :=
    congrArg Meters.bytesConsumed hm
  have hmsgs := h.msgs
  have hbytes := h.bytes
  have hsplit : message.length = len + (message.length - len) := by omega
  constructor
  · rw [hq, List.length_cons, BitVec.ofNat_add] at hmsgs
    rw [hmp, hmc, hmsgs]
    ac_rfl
  · rw [queuedBytes, hq, List.map_cons, List.sum_cons, hsplit] at hbytes
    rw [hbp, hbc, hbytes, queuedBytes]
    simp only [BitVec.ofNat_add]
    ac_rfl

-- A new message of `len` bytes joins the queue.
theorem Conserved.produce (h : Conserved acc dev) {message : List UInt8} {len depth : Nat}
    (hq : queue next = queue dev ++ [message]) (hlen : message.length = len)
    (hm : meters next = (meters dev).produce depth (.ok len)) : Conserved acc next := by
  have hmp : next.msgsProduced = dev.msgsProduced + 1 := congrArg Meters.msgsProduced hm
  have hmc : next.msgsConsumed = dev.msgsConsumed := congrArg Meters.msgsConsumed hm
  have hbp : next.bytesProduced = dev.bytesProduced + BitVec.ofNat 64 len :=
    congrArg Meters.bytesProduced hm
  have hbc : next.bytesConsumed = dev.bytesConsumed := congrArg Meters.bytesConsumed hm
  have hmsgs := h.msgs
  have hbytes := h.bytes
  constructor
  · calc next.msgsProduced + BitVec.ofNat 64 acc.msgs
        = dev.msgsProduced + BitVec.ofNat 64 acc.msgs + 1 := by rw [hmp]; ac_rfl
      _ = dev.msgsConsumed + BitVec.ofNat 64 (queue dev).length + 1 := by rw [hmsgs]
      _ = next.msgsConsumed + BitVec.ofNat 64 (queue next).length := by
        rw [hq, List.length_append, List.length_singleton, BitVec.ofNat_add, hmc, BitVec.add_assoc]
        rfl
  · have hsum : queuedBytes next = queuedBytes dev + len := by
      simp only [queuedBytes, hq, List.map_append, List.map_cons, List.map_nil, List.sum_append,
        List.sum_singleton, hlen]
    calc next.bytesProduced + BitVec.ofNat 64 acc.bytes
        = dev.bytesProduced + BitVec.ofNat 64 acc.bytes + BitVec.ofNat 64 len := by rw [hbp]; ac_rfl
      _ = _ := by
        rw [hbytes, hsum, hbc, BitVec.ofNat_add]
        ac_rfl

theorem conserved_reset (dev : Dev) :
    Conserved ⟨(queue dev).length, queuedBytes dev, 0⟩ (iocReset dev) := by
  have hq : queue (iocReset dev) = queue dev := rfl
  have hb : queuedBytes (iocReset dev) = queuedBytes dev := rfl
  constructor
  · rw [hq]
    rfl
  · rw [hb]
    exact (BitVec.add_zero _).symm

theorem after_of_not_settles {call : Call} (hs : settles call (exec dev call).2 = false) :
    acc.after dev call = acc := by
  unfold Account.after
  split
  · cases hs
  · rename_i hret
    rw [hret] at hs
    cases hs
  · rfl

theorem conserved_exec (h : Wellformed dev) (hc : Conserved acc dev) (call : Call) :
    Conserved (acc.after dev call) (exec dev call).1 := by
  have ho := exec_outcome h call
  generalize hret : (exec dev call).2 = ret at ho
  cases ho with
  | consumed u out message hq hn hm =>
      simp only [Account.after, hret, hq, List.headD_cons]
      exact hc.consume hq (Nat.min_le_right _ _) hm
  | produced u message hq hn hm =>
      exact hc.produce hq rfl hm
  | resized rq hq hq' hm =>
      exact hc.of_quiet (hq'.trans hq.symm) hm
  | reset hnext => exact conserved_reset dev
  | quiet _ _ hs hq hn hm =>
      rw [after_of_not_settles (hret ▸ hs)]
      exact hc.of_quiet hq hm

theorem conserved_execAll (h : Wellformed dev) (hc : Conserved acc dev) (calls : List Call) :
    Conserved (accountAll acc dev calls) (execAll dev calls).1 := by
  induction calls generalizing acc dev with
  | nil => exact hc
  | cons call calls ih =>
      obtain ⟨h', -⟩ := exec_refined h call
      exact ih h' (conserved_exec h hc call)

theorem conserved_freshDev : Conserved ⟨0, 0, 0⟩ freshDev := ⟨rfl, rfl⟩

-- No message and no byte is lost by the counters, whatever the modes, the
-- failures and the configuration calls on the way.
theorem counters_conserve (calls : List Call) :
    let dev := (execAll freshDev calls).1
    let acc := accountAll ⟨0, 0, 0⟩ freshDev calls
    dev.msgsProduced + BitVec.ofNat 64 acc.msgs =
        dev.msgsConsumed + BitVec.ofNat 64 (occupancy dev) ∧
      dev.bytesProduced + BitVec.ofNat 64 acc.bytes =
        dev.bytesConsumed + BitVec.ofNat 64 (queuedBytes dev) +
          BitVec.ofNat 64 acc.discarded := by
  intro dev acc
  obtain ⟨h, -⟩ := execAll_refines freshDev_wellformed calls
  have hc := conserved_execAll freshDev_wellformed conserved_freshDev calls
  rw [occupancy_eq h]
  exact ⟨hc.msgs, hc.bytes⟩

end Kbuf
