import Kbuf.Device.Lemmas
import Kbuf.Fifo

namespace Kbuf

open Circular FreeRunning

variable {dev : Dev}

theorem queue_length_le (h : Wellformed dev) : (queue dev).length ≤ dev.numBuffers := by
  have hd := h.discipline
  unfold Discipline at hd
  unfold queue
  split at hd
  · exact hd.length_le
  · exact hd.length_le

theorem mem_window_message (hg : Geometry dev) {start len : Nat} {message : List UInt8}
    (hm : message ∈ window dev.message dev.numBuffers start len) :
    message.length ≤ dev.bufferSize := by
  obtain ⟨i, -, rfl⟩ := List.mem_map.mp hm
  have hi : (start + i) % dev.numBuffers < dev.numBuffers := Nat.mod_lt _ hg.num_pos
  rw [length_message hg hi]
  exact hg.len_le _ (slot_mem hg hi)

theorem mem_queue (h : Wellformed dev) {message : List UInt8} (hm : message ∈ queue dev) :
    message.length ≤ dev.bufferSize := by
  unfold queue at hm
  split at hm
  · exact mem_window_message h.geometry hm
  · exact mem_window_message h.geometry hm

def Wellformed.fifo (h : Wellformed dev) : Fifo where
  messages := queue dev
  capacity := dev.numBuffers
  slotSize := dev.bufferSize
  length_le := queue_length_le h
  small _ hm := mem_queue h hm

theorem occupancy_eq (h : Wellformed dev) : occupancy dev = (queue dev).length := by
  have hd := h.discipline
  unfold Discipline at hd
  unfold occupancy queue
  cases hm : dev.mode with
  | SPSC =>
      simp only [spscQueue, length_window]
      rfl
  | BLOCKING =>
      simp only [hm] at hd
      simp only [blockingQueue, length_window, hd.toUnsigned_count h.geometry]

theorem kbufPoll_eq (h : Wellformed dev) :
    kbufPoll dev = pollMask (queue dev).isEmpty ((queue dev).length = dev.numBuffers) := by
  have hd := h.discipline
  unfold Discipline at hd
  unfold kbufPoll queue
  cases hm : dev.mode with
  | SPSC =>
      simp only [hm] at hd ⊢
      congr 1
      · rw [Bool.eq_iff_iff, spscIsEmpty_iff, List.isEmpty_iff]
      · rw [Bool.eq_iff_iff, spscIsFull_iff hd, decide_eq_true_eq]
  | BLOCKING =>
      simp only [hm] at hd ⊢
      congr 1
      · rw [Bool.eq_iff_iff, ringIsEmpty_iff hd, List.isEmpty_iff]
      · rw [Bool.eq_iff_iff, ringIsFull_iff h.geometry hd, decide_eq_true_eq]

-- The result of a call is a well-formed device whose FIFO took that call's step.
def Wellformed.Refined (h : Wellformed dev) (call : Call) (result : Dev × Ret) : Prop :=
  ∃ h' : Wellformed result.1, h.fifo.Step call result.2 h'.fifo

section Read

-- Both disciplines consume the same way: the oldest message leaves unless the
-- copy to the user faults.
theorem refined_of_consume {next : Dev} {val : Except Errno Nat} {out : List UInt8}
    {u : UserRead} (message : List UInt8) (h : Wellformed dev) (h' : Wellformed next)
    (hn : next.numBuffers = dev.numBuffers) (hs : next.bufferSize = dev.bufferSize)
    (hcases : (u.room < min u.count message.length ∧ next = dev ∧ val = .error .EFAULT ∧
        out = message.take u.room ∧ ∃ rest, queue dev = message :: rest) ∨
      (min u.count message.length ≤ u.room ∧ val = .ok (min u.count message.length) ∧
        out = message.take u.count ∧ queue dev = message :: queue next)) :
    h.Refined (.read u) (next, .bytes val out) := by
  refine ⟨h', ?_⟩
  simp only [Fifo.Step, Fifo.ReadStep]
  rcases hcases with ⟨hfault, rfl, rfl, rfl, rest, hq⟩ | ⟨hok, rfl, rfl, hq⟩
  · simp only [Wellformed.fifo, hq, Nat.not_le.mpr hfault, ite_false, and_self]
  · simp only [Wellformed.fifo, hq, hok, ite_true, true_and]
    exact ⟨hn, hs⟩

theorem refined_of_empty (h : Wellformed dev) (u : UserRead) (hq : queue dev = []) :
    h.Refined (.read u) (dev, .bytes (.error .EAGAIN) []) := by
  refine ⟨h, ?_⟩
  simp only [Fifo.Step, Fifo.ReadStep, Wellformed.fifo, hq, and_self]

theorem spscRead_refined (h : Wellformed dev) (hm : dev.mode = .SPSC) (u : UserRead) :
    h.Refined (.read u) (kbufRead dev u) := by
  have hg := h.geometry
  have hr : SpscRing dev := by simpa only [Discipline, hm] using h.discipline
  have hqueue : queue dev = spscQueue dev := by simp only [queue, hm]
  cases he : spscIsEmpty dev with
  | true =>
      simp only [kbufRead, hm, he, ite_true]
      exact refined_of_empty h u (hqueue.trans (spscIsEmpty_iff.mp he))
  | false =>
      have hlen := length_message hg (hr.masked_lt hg dev.consIdx)
      simp only [kbufRead, hm, he, Bool.false_eq_true, ite_false]
      by_cases hu : u.room < min u.count (dev.slot (dev.masked dev.consIdx)).len
      · rw [spscConsume_fault u hu]
        obtain ⟨hq, -⟩ := spscQueue_release hg hr (depth_pos_of_not_empty he)
          { dev with consIdx := dev.consIdx + 1 } rfl rfl rfl rfl
        refine refined_of_consume (dev.message (dev.masked dev.consIdx)) h h rfl rfl
          (Or.inl ⟨hlen ▸ hu, rfl, rfl, ?_, _, hqueue.trans hq⟩)
        rw [Dev.message, Slot.message, List.take_take, Nat.min_eq_left (by omega)]
      · obtain ⟨hval, hg', hr', hq⟩ := spscConsume_ok hg hr he u (by omega)
        have h' : Wellformed (spscConsume dev u).1 :=
          ⟨hg', by simpa only [Discipline, spscConsume_mode, hm] using hr'⟩
        refine refined_of_consume (dev.message (dev.masked dev.consIdx)) h h' (by simp) (by simp)
          (Or.inr ⟨?_, ?_, ?_, ?_⟩)
        · rw [hlen]; omega
        · exact (congrArg Prod.fst hval).trans (by rw [hlen])
        · exact congrArg Prod.snd hval
        · rw [hqueue, hq]
          simp only [queue, spscConsume_mode, hm]

theorem blockingRead_refined (h : Wellformed dev) (hm : dev.mode = .BLOCKING) (u : UserRead) :
    h.Refined (.read u) (kbufRead dev u) := by
  have hg := h.geometry
  have hr : BlockingRing dev := by simpa only [Discipline, hm] using h.discipline
  have hqueue : queue dev = blockingQueue dev := by simp only [queue, hm]
  cases he : ringIsEmpty dev with
  | true =>
      simp only [kbufRead, hm, he, ite_true]
      exact refined_of_empty h u (hqueue.trans ((ringIsEmpty_iff hr).mp he))
  | false =>
      have hlen := length_message hg hr.readPos_lt
      simp only [kbufRead, hm, he, Bool.false_eq_true, ite_false]
      by_cases hu : u.room < min u.count (dev.slot dev.readPos).len
      · rw [ringConsume_fault u hu]
        refine refined_of_consume (dev.message dev.readPos) h h rfl rfl
          (Or.inl ⟨hlen ▸ hu, rfl, rfl, ?_, _, hqueue.trans (head_blockingQueue hr he)⟩)
        rw [Dev.message, Slot.message, List.take_take, Nat.min_eq_left (by omega)]
      · obtain ⟨hval, hg', hr', hq, -⟩ := ringConsume_ok hg hr he u (by omega)
        have h' : Wellformed (ringConsume dev u).1 :=
          ⟨hg', by simpa only [Discipline, ringConsume_mode, hm] using hr'⟩
        refine refined_of_consume (dev.message dev.readPos) h h' (by simp) (by simp)
          (Or.inr ⟨?_, ?_, ?_, ?_⟩)
        · rw [hlen]; omega
        · exact (congrArg Prod.fst hval).trans (by rw [hlen])
        · exact congrArg Prod.snd hval
        · rw [hqueue, hq]
          simp only [queue, ringConsume_mode, hm]

end Read

section Write

-- Both disciplines produce the same way: the clamped message is appended unless
-- the copy from the user faults.
theorem refined_of_produce {next : Dev} {val : Except Errno Nat} {u : UserWrite}
    (h : Wellformed dev) (h' : Wellformed next)
    (hn : next.numBuffers = dev.numBuffers) (hs : next.bufferSize = dev.bufferSize)
    (hroom : (queue dev).length < dev.numBuffers)
    (hcases : (u.ubuf.length < min u.count dev.bufferSize ∧ val = .error .EFAULT ∧
        queue next = queue dev) ∨
      (min u.count dev.bufferSize ≤ u.ubuf.length ∧ val = .ok (min u.count dev.bufferSize) ∧
        queue next = queue dev ++ [u.ubuf.take (min u.count dev.bufferSize)])) :
    h.Refined (.write u) (next, .size val) := by
  refine ⟨h', ?_⟩
  simp only [Fifo.Step, Fifo.WriteStep]
  rcases hcases with ⟨hfault, rfl, hq⟩ | ⟨hok, rfl, hq⟩
  · simp only [Wellformed.fifo, hroom, Nat.not_le.mpr hfault, ite_true, ite_false, true_and]
    exact Fifo.ext hq hn hs
  · simp only [Wellformed.fifo, hroom, hok, ite_true, true_and]
    exact ⟨hq, hn, hs⟩

theorem refined_of_full (h : Wellformed dev) (u : UserWrite)
    (hq : (queue dev).length = dev.numBuffers) :
    h.Refined (.write u) (dev, .size (.error .EAGAIN)) := by
  refine ⟨h, ?_⟩
  simp only [Fifo.Step, Fifo.WriteStep, Wellformed.fifo, hq, Nat.lt_irrefl, ite_false, and_self]

theorem spscWrite_refined (h : Wellformed dev) (hm : dev.mode = .SPSC) (u : UserWrite) :
    h.Refined (.write u) (kbufWrite dev u) := by
  have hg := h.geometry
  have hr : SpscRing dev := by simpa only [Discipline, hm] using h.discipline
  have hqueue : queue dev = spscQueue dev := by simp only [queue, hm]
  have hcount := clamp_count u dev.bufferSize
  cases he : spscIsFull dev with
  | true =>
      simp only [kbufWrite, hm, he, ite_true]
      exact refined_of_full h u (hqueue ▸ (spscIsFull_iff hr).mp he)
  | false =>
      have hroom : (queue dev).length < dev.numBuffers := by
        rw [hqueue, spscQueue, length_window]
        exact depth_lt_of_not_full he
      simp only [kbufWrite, hm, he, Bool.false_eq_true, ite_false]
      by_cases hu : u.ubuf.length < min u.count dev.bufferSize
      · obtain ⟨hval, hg', hr', hq⟩ :=
          spscProduce_fault hg hr he (u.clamp dev.bufferSize) (by rw [hcount]; exact hu)
        have h' : Wellformed (spscProduce dev (u.clamp dev.bufferSize)).1 :=
          ⟨hg', by simpa only [Discipline, spscProduce_mode, hm] using hr'⟩
        refine refined_of_produce h h' (by simp) (by simp) hroom (Or.inl ⟨hu, hval, ?_⟩)
        rw [hqueue, ← hq]
        simp only [queue, spscProduce_mode, hm]
      · obtain ⟨hval, hg', hr', hq⟩ :=
          spscProduce_ok hg hr he (u.clamp dev.bufferSize) (by rw [hcount]; omega)
            (by rw [hcount]; exact Nat.le_of_not_lt hu)
        have h' : Wellformed (spscProduce dev (u.clamp dev.bufferSize)).1 :=
          ⟨hg', by simpa only [Discipline, spscProduce_mode, hm] using hr'⟩
        refine refined_of_produce h h' (by simp) (by simp) hroom
          (Or.inr ⟨by omega, hcount ▸ hval, ?_⟩)
        rw [hqueue, ← hcount, ← show (u.clamp dev.bufferSize).ubuf = u.ubuf from rfl, ← hq]
        simp only [queue, spscProduce_mode, hm]

theorem blockingWrite_refined (h : Wellformed dev) (hm : dev.mode = .BLOCKING) (u : UserWrite) :
    h.Refined (.write u) (kbufWrite dev u) := by
  have hg := h.geometry
  have hr : BlockingRing dev := by simpa only [Discipline, hm] using h.discipline
  have hqueue : queue dev = blockingQueue dev := by simp only [queue, hm]
  have hcount := clamp_count u dev.bufferSize
  cases he : ringIsFull dev with
  | true =>
      simp only [kbufWrite, hm, he, ite_true]
      exact refined_of_full h u (hqueue ▸ (ringIsFull_iff hg hr).mp he)
  | false =>
      have hroom : (queue dev).length < dev.numBuffers := by
        rw [hqueue, blockingQueue, length_window]
        exact hr.lt_of_not_full hg he
      simp only [kbufWrite, hm, he, Bool.false_eq_true, ite_false]
      by_cases hu : u.ubuf.length < min u.count dev.bufferSize
      · obtain ⟨hval, hg', hr', hq⟩ :=
          ringProduce_fault hg hr he (u.clamp dev.bufferSize) (by rw [hcount]; exact hu)
        have h' : Wellformed (ringProduce dev (u.clamp dev.bufferSize)).1 :=
          ⟨hg', by simpa only [Discipline, ringProduce_mode, hm] using hr'⟩
        refine refined_of_produce h h' (by simp) (by simp) hroom (Or.inl ⟨hu, hval, ?_⟩)
        rw [hqueue, ← hq]
        simp only [queue, ringProduce_mode, hm]
      · obtain ⟨hval, hg', hr', hq, -⟩ :=
          ringProduce_ok hg hr he (u.clamp dev.bufferSize) (by rw [hcount]; omega)
            (by rw [hcount]; exact Nat.le_of_not_lt hu)
        have h' : Wellformed (ringProduce dev (u.clamp dev.bufferSize)).1 :=
          ⟨hg', by simpa only [Discipline, ringProduce_mode, hm] using hr'⟩
        refine refined_of_produce h h' (by simp) (by simp) hroom
          (Or.inr ⟨by omega, hcount ▸ hval, ?_⟩)
        rw [hqueue, ← hcount, ← show (u.clamp dev.bufferSize).ubuf = u.ubuf from rfl, ← hq]
        simp only [queue, ringProduce_mode, hm]

end Write

section Configuration

-- A refused configuration call leaves the device as it was.
theorem refined_of_refused_resize (h : Wellformed dev) (rq : ResizeArg) (e : Errno) :
    h.Refined (.resize rq) (dev, .status (.error e)) :=
  ⟨h, Or.inr ⟨⟨e, rfl⟩, rfl⟩⟩

theorem refined_of_refused_smode (h : Wellformed dev) (arg : SmodeArg) (e : Errno) :
    h.Refined (.smode arg) (dev, .status (.error e)) :=
  ⟨h, Or.inr ⟨⟨e, rfl⟩, rfl⟩⟩

theorem queue_eq_nil_of_occupancy (h : Wellformed dev) (ho : occupancy dev = 0) :
    queue dev = [] := by
  rw [occupancy_eq h] at ho
  exact List.length_eq_zero_iff.mp ho

theorem resizeSwap_ok {rq : ResizeArg} {slots : List Slot} {next : Dev}
    (h : resizeSwap dev rq slots = .ok next) :
    occupancy dev = 0 ∧ next = dev.resized rq slots := by
  unfold resizeSwap at h
  split at h
  · cases h
  · rename_i ho
    exact ⟨not_not.mp ho, (Except.ok.inj h).symm⟩

-- The freshly allocated array has the requested dimensions.
theorem geometry_of_alloc {rq : ResizeArg} {slots : List Slot}
    (hcheck : 1 ≤ rq.numBuffers ∧ rq.numBuffers ≤ KBUF_MAX_NUM_BUFFERS ∧
      1 ≤ rq.bufferSize ∧ rq.bufferSize ≤ KBUF_MAX_BUFFER_SIZE)
    (halloc : allocSlots rq.kmalloc rq.numBuffers rq.bufferSize = some slots)
    (hs : dev.slots = slots) (hn : dev.numBuffers = rq.numBuffers)
    (hb : dev.bufferSize = rq.bufferSize) : Geometry dev := by
  obtain ⟨hn1, hn2, hs1, hs2⟩ := hcheck
  have hfresh := emptyDev_geometry .BLOCKING rq.numBuffers rq.bufferSize hn1 hn2 hs1 hs2
  exact hfresh.of_eq (hs.trans (allocSlots_eq_some halloc)) hn hb

theorem resize_refined (h : Wellformed dev) (rq : ResizeArg) :
    h.Refined (.resize rq) (exec dev (.resize rq)) := by
  cases hcheck : resizeCheck dev rq with
  | error e =>
      simp only [exec, iocResize, hcheck]
      exact refined_of_refused_resize h rq e
  | ok _ =>
      obtain ⟨hn1, hn2, hs1, hs2, hp⟩ := resizeCheck_ok hcheck
      cases halloc : allocSlots rq.kmalloc rq.numBuffers rq.bufferSize with
      | none =>
          simp only [exec, iocResize, hcheck, halloc]
          exact refined_of_refused_resize h rq .ENOMEM
      | some slots =>
          cases hswap : resizeSwap dev rq slots with
          | error e =>
              simp only [exec, iocResize, hcheck, halloc, hswap]
              exact refined_of_refused_resize h rq e
          | ok next =>
              simp only [exec, iocResize, hcheck, halloc, hswap]
              obtain ⟨ho, rfl⟩ := resizeSwap_ok hswap
              have hg : Geometry (dev.resized rq slots) :=
                geometry_of_alloc ⟨hn1, hn2, hs1, hs2⟩ halloc rfl rfl rfl
              obtain ⟨hd, hq⟩ := discipline_of_reset hg.num_pos hp rfl rfl rfl rfl
              exact ⟨⟨hg, hd⟩, Or.inl ⟨rfl, queue_eq_nil_of_occupancy h ho, hq, rfl, rfl⟩⟩

theorem smodeSwitch_ok {mode : Mode} {next : Dev} (h : smodeSwitch dev mode = .ok next) :
    occupancy dev = 0 ∧ (mode = .SPSC → dev.numBuffers.isPowerOfTwo) ∧
      next = dev.switched mode := by
  unfold smodeSwitch at h
  split at h
  · cases h
  split at h
  · cases h
  · rename_i ho hp
    refine ⟨not_not.mp ho, ?_, (Except.ok.inj h).symm⟩
    intro hm
    by_contra hnp
    exact hp ⟨hm, fun hb => hnp ((isPowerOf2_iff _).mp hb)⟩

theorem smode_refined (h : Wellformed dev) (arg : SmodeArg) :
    h.Refined (.smode arg) (exec dev (.smode arg)) := by
  cases hcheck : smodeCheck arg with
  | error e =>
      simp only [exec, iocSmode, hcheck]
      exact refined_of_refused_smode h arg e
  | ok mode =>
      cases hswitch : smodeSwitch dev mode with
      | error e =>
          simp only [exec, iocSmode, hcheck, hswitch]
          exact refined_of_refused_smode h arg e
      | ok next =>
          simp only [exec, iocSmode, hcheck, hswitch]
          obtain ⟨ho, hp, rfl⟩ := smodeSwitch_ok hswitch
          have hempty := queue_eq_nil_of_occupancy h ho
          have hg : Geometry (dev.switched mode) := h.geometry.of_eq rfl rfl rfl
          obtain ⟨hd, hq⟩ := discipline_of_reset hg.num_pos hp rfl rfl rfl rfl
          refine ⟨⟨hg, hd⟩, Or.inl ⟨rfl, hempty, ?_⟩⟩
          exact Fifo.ext (hq.trans hempty.symm) rfl rfl

theorem reset_refined (h : Wellformed dev) : h.Refined .reset (exec dev .reset) := by
  have h' : Wellformed (iocReset dev) := by
    refine ⟨h.geometry.of_eq rfl rfl rfl, ?_⟩
    have hd := h.discipline
    unfold Discipline at hd ⊢
    cases hm : dev.mode with
    | SPSC =>
        simp only [hm, iocReset] at hd ⊢
        exact ⟨hd.power, hd.depth_le⟩
    | BLOCKING =>
        simp only [hm, iocReset] at hd ⊢
        exact ⟨hd.count_nonneg, hd.count_le, hd.readPos_lt, hd.writePos_eq⟩
  exact ⟨h', rfl, rfl⟩

end Configuration

theorem exec_refined (h : Wellformed dev) (call : Call) : h.Refined call (exec dev call) := by
  cases call with
  | read u =>
      cases hm : dev.mode with
      | SPSC => exact spscRead_refined h hm u
      | BLOCKING => exact blockingRead_refined h hm u
  | write u =>
      cases hm : dev.mode with
      | SPSC => exact spscWrite_refined h hm u
      | BLOCKING => exact blockingWrite_refined h hm u
  | resize rq => exact resize_refined h rq
  | smode arg => exact smode_refined h arg
  | reset => exact reset_refined h
  | getstats fault =>
      refine ⟨h, rfl, ?_⟩
      cases fault with
      | true => rfl
      | false => exact ⟨_, rfl, occupancy_eq h, rfl, rfl⟩
  | poll => exact ⟨h, rfl, congrArg Ret.mask (kbufPoll_eq h)⟩

theorem freshDev_fifo : freshDev_wellformed.fifo = Fifo.fresh :=
  Fifo.ext rfl rfl rfl

theorem execAll_refines (h : Wellformed dev) (calls : List Call) :
    ∃ h' : Wellformed (execAll dev calls).1,
      Fifo.Runs h.fifo (calls.zip (execAll dev calls).2) h'.fifo := by
  induction calls generalizing dev with
  | nil => exact ⟨h, .nil _⟩
  | cons call calls ih =>
      obtain ⟨hmid, hstep⟩ := exec_refined h call
      obtain ⟨hlast, hruns⟩ := ih hmid
      exact ⟨hlast, .cons hstep hruns⟩

theorem length_execAll (dev : Dev) (calls : List Call) :
    (execAll dev calls).2.length = calls.length := by
  induction calls generalizing dev with
  | nil => rfl
  | cons call calls ih => exact congrArg (· + 1) (ih (exec dev call).1)

-- The device is a bounded FIFO of messages under every sequence of calls, across
-- mode switches, changes of geometry and wrap of the free-running indices.
theorem device_refines_fifo (calls : List Call) :
    ∃ h : Wellformed (execAll freshDev calls).1,
      Fifo.Runs Fifo.fresh (calls.zip (execAll freshDev calls).2) h.fifo ∧
      (execAll freshDev calls).2.length = calls.length ∧
      occupancy (execAll freshDev calls).1 = h.fifo.messages.length ∧
      kbufPoll (execAll freshDev calls).1 =
        pollMask h.fifo.messages.isEmpty (h.fifo.messages.length = h.fifo.capacity) := by
  obtain ⟨h, hruns⟩ := execAll_refines freshDev_wellformed calls
  rw [freshDev_fifo] at hruns
  exact ⟨h, hruns, length_execAll freshDev calls, occupancy_eq h, kbufPoll_eq h⟩

end Kbuf
