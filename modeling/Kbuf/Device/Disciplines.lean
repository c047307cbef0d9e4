import Kbuf.Device.Meters

namespace Kbuf

-- The calls that a device answers alike in both modes. A RESET is not one of
-- them (it reads `count`), and a mode switch ends the comparison.
def Call.comparable : Call → Bool
  | .read _ => true
  | .write _ => true
  | .resize rq => isPowerOf2 rq.numBuffers
  | .getstats _ => true
  | .poll => true
  | .smode _ => false
  | .reset => false

-- Two devices that no comparable call can tell apart, whatever their modes.
structure Alike (a b : Dev) : Prop where
  left : Wellformed a
  right : Wellformed b
  fifo_eq : left.fifo = right.fifo
  meters_eq : meters a = meters b

section Functional

variable {q next next' : Fifo} {ret ret' : Ret}

theorem Fifo.SameShape.eq (h : q.SameShape next) (h' : q.SameShape next')
    (hm : next.messages = next'.messages) : next = next' :=
  Fifo.ext hm (h.1.trans h'.1.symm) (h.2.trans h'.2.symm)

theorem Fifo.ReadStep.functional {u : UserRead} (h : q.ReadStep u ret next)
    (h' : q.ReadStep u ret' next') : ret = ret' ∧ next = next' := by
  unfold Fifo.ReadStep at h h'
  cases hq : q.messages with
  | nil =>
      simp only [hq] at h h'
      exact ⟨h.1.trans h'.1.symm, h.2.trans h'.2.symm⟩
  | cons message rest =>
      simp only [hq] at h h'
      by_cases hroom : min u.count message.length ≤ u.room
      · rw [if_pos hroom] at h h'
        obtain ⟨hret, hm, hs⟩ := h
        obtain ⟨hret', hm', hs'⟩ := h'
        exact ⟨hret.trans hret'.symm, hs.eq hs' (hm.trans hm'.symm)⟩
      · rw [if_neg hroom] at h h'
        exact ⟨h.1.trans h'.1.symm, h.2.trans h'.2.symm⟩

theorem Fifo.WriteStep.functional {u : UserWrite} (h : q.WriteStep u ret next)
    (h' : q.WriteStep u ret' next') : ret = ret' ∧ next = next' := by
  unfold Fifo.WriteStep at h h'
  by_cases hfull : q.messages.length < q.capacity
  · rw [if_pos hfull] at h h'
    by_cases hfetch : min u.count q.slotSize ≤ u.ubuf.length
    · rw [if_pos hfetch] at h h'
      obtain ⟨hret, hm, hs⟩ := h
      obtain ⟨hret', hm', hs'⟩ := h'
      exact ⟨hret.trans hret'.symm, hs.eq hs' (hm.trans hm'.symm)⟩
    · rw [if_neg hfetch] at h h'
      exact ⟨h.1.trans h'.1.symm, h.2.trans h'.2.symm⟩
  · rw [if_neg hfull] at h h'
    exact ⟨h.1.trans h'.1.symm, h.2.trans h'.2.symm⟩

-- A resize may be refused for several reasons, but its answer fixes its effect.
theorem Fifo.Step.resize_functional {rq : ResizeArg} (h : q.Step (.resize rq) ret next)
    (h' : q.Step (.resize rq) ret next') : next = next' := by
  rcases h with ⟨hret, -, hm, hc, hs⟩ | ⟨⟨e, hret⟩, hnext⟩
  · rcases h' with ⟨-, -, hm', hc', hs'⟩ | ⟨⟨e, hret'⟩, -⟩
    · exact Fifo.ext (hm.trans hm'.symm) (hc.trans hc'.symm) (hs.trans hs'.symm)
    · cases hret.symm.trans hret'
  · rcases h' with ⟨hret', -⟩ | ⟨-, hnext'⟩
    · cases hret.symm.trans hret'
    · exact hnext.trans hnext'.symm

end Functional

section Calls

variable {a b : Dev}

theorem Alike.num_eq (h : Alike a b) : a.numBuffers = b.numBuffers :=
  congrArg Fifo.capacity h.fifo_eq

theorem Alike.size_eq (h : Alike a b) : a.bufferSize = b.bufferSize :=
  congrArg Fifo.slotSize h.fifo_eq

theorem Alike.occupancy_eq (h : Alike a b) : occupancy a = occupancy b := by
  rw [Kbuf.occupancy_eq h.left, Kbuf.occupancy_eq h.right]
  exact congrArg (fun q => q.messages.length) h.fifo_eq

theorem Alike.stats_eq (h : Alike a b) : iocGetstats a = iocGetstats b := by
  have hm := h.meters_eq
  simp only [meters, Meters.mk.injEq] at hm
  simp only [iocGetstats, Stats.mk.injEq]
  exact ⟨hm.1, hm.2.1, hm.2.2.1, hm.2.2.2.1, hm.2.2.2.2.1, hm.2.2.2.2.2.1, h.num_eq, h.size_eq,
    h.occupancy_eq, hm.2.2.2.2.2.2⟩

-- With a power of two the check that only SPSC makes never fails.
theorem resizeCheck_eq {rq : ResizeArg} (hp : isPowerOf2 rq.numBuffers = true) :
    resizeCheck a rq = resizeCheck b rq := by
  simp [resizeCheck, hp]

theorem Alike.resize_eq (h : Alike a b) {rq : ResizeArg} (hp : isPowerOf2 rq.numBuffers = true) :
    (iocResize a rq).2 = (iocResize b rq).2 := by
  unfold iocResize
  rw [resizeCheck_eq (b := b) hp]
  split
  · rfl
  split
  · rfl
  · simp only [resizeSwap, h.occupancy_eq]
    by_cases hocc : occupancy b ≠ 0
    · simp only [if_pos hocc]
    · simp only [if_neg hocc]

-- The same answer, and devices that are alike again.
theorem Alike.exec (h : Alike a b) (call : Call) (hc : call.comparable = true) :
    (exec a call).2 = (exec b call).2 ∧ Alike (exec a call).1 (exec b call).1 := by
  obtain ⟨ha', hstep⟩ := exec_refined h.left call
  obtain ⟨hb', hstep'⟩ := exec_refined h.right call
  rw [h.fifo_eq] at hstep
  have hboth : (Kbuf.exec a call).2 = (Kbuf.exec b call).2 ∧ ha'.fifo = hb'.fifo := by
    cases call with
    | read u => exact hstep.functional hstep'
    | write u => exact hstep.functional hstep'
    | resize rq =>
        have hret : (Kbuf.exec a (.resize rq)).2 = (Kbuf.exec b (.resize rq)).2 :=
          congrArg Ret.status (h.resize_eq hc)
        rw [hret] at hstep
        exact ⟨hret, hstep.resize_functional hstep'⟩
    | getstats fault =>
        refine ⟨?_, hstep.1.trans hstep'.1.symm⟩
        simp only [Kbuf.exec, h.stats_eq]
    | poll => exact ⟨hstep.2.trans hstep'.2.symm, hstep.1.trans hstep'.1.symm⟩
    | smode arg => cases hc
    | reset => cases hc
  obtain ⟨hret, hfifo⟩ := hboth
  have hne : call ≠ .reset := by
    rintro rfl
    cases hc
  refine ⟨hret, ha', hb', hfifo, ?_⟩
  have hlen : (queue (Kbuf.exec a call).1).length = (queue (Kbuf.exec b call).1).length :=
    congrArg (fun q => q.messages.length) hfifo
  rw [exec_meters h.left call hne, exec_meters h.right call hne, h.meters_eq, hret, hlen]

theorem Alike.execAll (h : Alike a b) (calls : List Call)
    (hc : ∀ call ∈ calls, call.comparable = true) :
    (execAll a calls).2 = (execAll b calls).2 := by
  induction calls generalizing a b with
  | nil => rfl
  | cons call calls ih =>
      obtain ⟨hret, hnext⟩ := h.exec call (hc call List.mem_cons_self)
      have hrest := ih hnext fun other hm => hc other (List.mem_cons_of_mem _ hm)
      simp only [Kbuf.execAll, hret, hrest]

end Calls

-- A blocking ring and an SPSC ring of one power-of-two geometry, both empty and
-- with the same statistics, answer every sequence of calls alike. The SPSC
-- indices may start anywhere and wrap on the way.
theorem disciplines_agree (a b : Dev) (calls : List Call)
    (hga : Geometry a) (hma : a.mode = .BLOCKING) (hra : BlockingRing a)
    (hgb : Geometry b) (hmb : b.mode = .SPSC) (hrb : SpscRing b)
    (hn : a.numBuffers = b.numBuffers) (hs : a.bufferSize = b.bufferSize)
    (hempty : a.count = 0 ∧ b.prodIdx = b.consIdx) (hm : meters a = meters b)
    (hc : ∀ call ∈ calls, call.comparable = true) :
    (execAll a calls).2 = (execAll b calls).2 := by
  have ha : Wellformed a := ⟨hga, by simpa only [Discipline, hma] using hra⟩
  have hb : Wellformed b := ⟨hgb, by simpa only [Discipline, hmb] using hrb⟩
  have hqa : queue a = [] := by
    rw [queue_of_blocking hma]
    exact (ringIsEmpty_iff hra).mp (decide_eq_true hempty.1)
  have hqb : queue b = [] := by
    rw [queue_of_spsc hmb]
    exact spscIsEmpty_iff.mp (decide_eq_true hempty.2)
  have halike : Alike a b := ⟨ha, hb, Fifo.ext (hqa.trans hqb.symm) hn hs, hm⟩
  exact halike.execAll calls hc

-- The last index before the wrap, with writes and reads on both sides of it.
def wrappingDev : Dev :=
  { emptyDev .SPSC 2 4 with prodIdx := BitVec.allOnes 32, consIdx := BitVec.allOnes 32 }

def fillAndDrain : List Call :=
  [.write ⟨[1, 2, 3], 3⟩, .write ⟨[4], 2⟩, .write ⟨[5, 6], 2⟩, .write ⟨[7], 1⟩, .poll,
    .read ⟨2, 8⟩, .read ⟨2, 1⟩, .getstats false, .read ⟨2, 8⟩, .read ⟨1, 1⟩]

theorem disciplines_agree_fillAndDrain :
    (execAll (emptyDev .BLOCKING 2 4) fillAndDrain).2 = (execAll wrappingDev fillAndDrain).2 :=
  have hg (mode : Mode) : Geometry (emptyDev mode 2 4) :=
    emptyDev_geometry mode 2 4 (by decide) (by decide) (by decide) (by decide)
  disciplines_agree _ _ _ (hg .BLOCKING) rfl ⟨by decide, by decide, by decide, by decide⟩
    ((hg .SPSC).of_eq rfl rfl rfl) rfl ⟨⟨1, rfl⟩, by decide⟩ rfl rfl ⟨rfl, rfl⟩ rfl (by decide)

end Kbuf
