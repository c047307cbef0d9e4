import Kbuf.Machine.Moves.Blocking

namespace Kbuf

open Interleaving

section Ioctl

inductive ResizeMove (rq : ResizeArg) (me : Nat) (w : World) :
    ResizePc → World → Next ResizePc → Prop
  | reject {e : Errno} (h : resizeCheck w.dev rq = .error e) :
      ResizeMove rq me w .check w (.ret (.status (.error e)))
  | accept (h : resizeCheck w.dev rq = .ok ()) : ResizeMove rq me w .check w (.to .alloc)
  | nomem (h : allocSlots rq.kmalloc rq.numBuffers rq.bufferSize = none) :
      ResizeMove rq me w .alloc w (.ret (.status (.error .ENOMEM)))
  | alloc {slots : List Slot}
      (h : allocSlots rq.kmalloc rq.numBuffers rq.bufferSize = some slots) :
      ResizeMove rq me w .alloc (w.alloc slots) (.to (.lock w.nextPtr))
  | lock {ptr : Nat} (h : w.lock = none) :
      ResizeMove rq me w (.lock ptr) { w with lock := some me } (.to (.swap ptr))
  | busy {ptr : Nat} (h : occupancy w.dev ≠ 0) :
      ResizeMove rq me w (.swap ptr) w (.to (.unlockBusy ptr))
  | swap {ptr : Nat} (h : occupancy w.dev = 0) :
      ResizeMove rq me w (.swap ptr)
        (w.install (w.dev.resized rq (w.array ptr)) ptr) (.to (.unlock w.slotsPtr))
  | unlockBusy {ptr : Nat} :
      ResizeMove rq me w (.unlockBusy ptr) w.release (.to (.freeNew ptr))
  | freeNew {ptr : Nat} :
      ResizeMove rq me w (.freeNew ptr) (w.free ptr) (.ret (.status (.error .EBUSY)))
  | unlock {old : Nat} : ResizeMove rq me w (.unlock old) w.release (.to (.freeOld old))
  | freeOld {old : Nat} : ResizeMove rq me w (.freeOld old) (w.free old) (.to .wake)
  | wake : ResizeMove rq me w .wake (w.wakeUp .write) (.ret (.status (.ok ())))

theorem resizeStep_move {rq : ResizeArg} {me : Nat} {w w' : World} {pc : ResizePc}
    {choice : Choice} {next : Next ResizePc} (h : resizeStep rq me w pc choice = some (w', next)) :
    ResizeMove rq me w pc w' next := by
  cases pc with
  | check =>
      cases choice <;> simp only [resizeStep, reduceCtorEq] at h
      split at h
      · obtain ⟨rfl, rfl⟩ := Prod.mk.inj (Option.some.inj h)
        exact .reject ‹_›
      · obtain ⟨rfl, rfl⟩ := Prod.mk.inj (Option.some.inj h)
        exact .accept ‹_›
  | alloc =>
      cases choice <;> simp only [resizeStep, reduceCtorEq] at h
      split at h
      · obtain ⟨rfl, rfl⟩ := Prod.mk.inj (Option.some.inj h)
        exact .nomem ‹_›
      · obtain ⟨rfl, rfl⟩ := Prod.mk.inj (Option.some.inj h)
        exact .alloc ‹_›
  | lock ptr =>
      cases choice <;> simp only [resizeStep, reduceCtorEq] at h
      obtain ⟨v, hv, hnext⟩ := Option.map_eq_some_iff.mp h
      obtain ⟨hl, rfl⟩ := acquire_eq_some hv
      obtain ⟨rfl, rfl⟩ := Prod.mk.inj hnext
      exact .lock hl
  | swap ptr =>
      cases choice <;> simp only [resizeStep, resizeSwap, reduceCtorEq] at h
      by_cases ho : occupancy w.dev = 0
      · simp only [ho, ne_eq, not_true_eq_false, ite_false] at h
        obtain ⟨rfl, rfl⟩ := Prod.mk.inj (Option.some.inj h)
        exact .swap ho
      · simp only [ho, ne_eq, not_false_eq_true, ite_true] at h
        obtain ⟨rfl, rfl⟩ := Prod.mk.inj (Option.some.inj h)
        exact .busy ho
  | unlockBusy | freeNew | unlock | freeOld | wake =>
      cases choice <;> simp only [resizeStep, reduceCtorEq] at h
      obtain ⟨rfl, rfl⟩ := Prod.mk.inj (Option.some.inj h)
      constructor

inductive SmodeMove (arg : SmodeArg) (me : Nat) (w : World) :
    SmodePc → World → Next SmodePc → Prop
  | reject {e : Errno} (h : smodeCheck arg = .error e) :
      SmodeMove arg me w .check w (.ret (.status (.error e)))
  | accept {mode : Mode} (h : smodeCheck arg = .ok mode) :
      SmodeMove arg me w .check w (.to (.lock mode))
  | lock {mode : Mode} (h : w.lock = none) :
      SmodeMove arg me w (.lock mode) { w with lock := some me } (.to (.switch mode))
  | refuse {mode : Mode} {e : Errno} (h : smodeSwitch w.dev mode = .error e) :
      SmodeMove arg me w (.switch mode) w (.to (.unlock (.error e)))
  | switch {mode : Mode} (ho : occupancy w.dev = 0)
      (hp : mode = .SPSC → isPowerOf2 w.dev.numBuffers = true) :
      SmodeMove arg me w (.switch mode) { w with dev := w.dev.switched mode }
        (.to (.unlock (.ok ())))
  | unlock {val : Except Errno Unit} :
      SmodeMove arg me w (.unlock val) w.release (.ret (.status val))

theorem smodeStep_move {arg : SmodeArg} {me : Nat} {w w' : World} {pc : SmodePc}
    {choice : Choice} {next : Next SmodePc} (h : smodeStep arg me w pc choice = some (w', next)) :
    SmodeMove arg me w pc w' next := by
  cases pc with
  | check =>
      cases choice <;> simp only [smodeStep, reduceCtorEq] at h
      split at h
      · obtain ⟨rfl, rfl⟩ := Prod.mk.inj (Option.some.inj h)
        exact .reject ‹_›
      · obtain ⟨rfl, rfl⟩ := Prod.mk.inj (Option.some.inj h)
        exact .accept ‹_›
  | lock mode =>
      cases choice <;> simp only [smodeStep, reduceCtorEq] at h
      obtain ⟨v, hv, hnext⟩ := Option.map_eq_some_iff.mp h
      obtain ⟨hl, rfl⟩ := acquire_eq_some hv
      obtain ⟨rfl, rfl⟩ := Prod.mk.inj hnext
      exact .lock hl
  | switch mode =>
      cases choice <;> simp only [smodeStep, reduceCtorEq] at h
      split at h
      · obtain ⟨rfl, rfl⟩ := Prod.mk.inj (Option.some.inj h)
        exact .refuse ‹_›
      · rename_i dev hswitch
        obtain ⟨rfl, rfl⟩ := Prod.mk.inj (Option.some.inj h)
        unfold smodeSwitch at hswitch
        split at hswitch
        · cases hswitch
        split at hswitch
        · cases hswitch
        · rename_i ho hp
          obtain rfl := Except.ok.inj hswitch
          exact .switch (not_not.mp ho) fun hm => not_not.mp fun hn => hp ⟨hm, hn⟩
  | unlock val =>
      cases choice <;> simp only [smodeStep, reduceCtorEq] at h
      obtain ⟨rfl, rfl⟩ := Prod.mk.inj (Option.some.inj h)
      exact .unlock

inductive ResetMove (me : Nat) (w : World) : ResetPc → World → Next ResetPc → Prop
  | lock (h : w.lock = none) : ResetMove me w .lock { w with lock := some me } (.to (.store 0))
  | store {field : Nat} :
      ResetMove me w (.store field) { w with dev := resetStore w.dev field }
        (.to (if field < 6 then .store (field + 1) else .unlock))
  | unlock : ResetMove me w .unlock w.release (.ret (.status (.ok ())))

theorem resetStep_move {me : Nat} {w w' : World} {pc : ResetPc} {choice : Choice}
    {next : Next ResetPc} (h : resetStep me w pc choice = some (w', next)) :
    ResetMove me w pc w' next := by
  cases pc with
  | lock =>
      cases choice <;> simp only [resetStep, reduceCtorEq] at h
      obtain ⟨v, hv, hnext⟩ := Option.map_eq_some_iff.mp h
      obtain ⟨hl, rfl⟩ := acquire_eq_some hv
      obtain ⟨rfl, rfl⟩ := Prod.mk.inj hnext
      exact .lock hl
  | store | unlock =>
      cases choice <;> simp only [resetStep, reduceCtorEq] at h
      obtain ⟨rfl, rfl⟩ := Prod.mk.inj (Option.some.inj h)
      constructor

inductive GetstatsMove (fault : Bool) (me : Nat) (w : World) :
    GetstatsPc → World → Next GetstatsPc → Prop
  | lock (h : w.lock = none) :
      GetstatsMove fault me w .lock { w with lock := some me } (.to .load)
  | loadSpsc (h : w.dev.mode = .SPSC) :
      GetstatsMove fault me w .load w (.to (.occ (iocGetstats w.dev) w.dev.prodIdx))
  | loadBlocking (h : w.dev.mode = .BLOCKING) :
      GetstatsMove fault me w .load w (.to (.unlock (iocGetstats w.dev)))
  | occ {stats : Stats} {prod : BitVec 32} :
      GetstatsMove fault me w (.occ stats prod) w
        (.to (.unlock { stats with
          curCount := (prod - w.dev.consIdx).toNat
          peakCount := w.dev.peakCount }))
  | unlock {stats : Stats} :
      GetstatsMove fault me w (.unlock stats) w.release
        (.ret (.stats (if fault then .error .EFAULT else .ok stats)))

theorem getstatsStep_move {fault : Bool} {me : Nat} {w w' : World} {pc : GetstatsPc}
    {choice : Choice} {next : Next GetstatsPc}
    (h : getstatsStep fault me w pc choice = some (w', next)) :
    GetstatsMove fault me w pc w' next := by
  cases pc with
  | lock =>
      cases choice <;> simp only [getstatsStep, reduceCtorEq] at h
      obtain ⟨v, hv, hnext⟩ := Option.map_eq_some_iff.mp h
      obtain ⟨hl, rfl⟩ := acquire_eq_some hv
      obtain ⟨rfl, rfl⟩ := Prod.mk.inj hnext
      exact .lock hl
  | load =>
      cases choice <;> simp only [getstatsStep, reduceCtorEq] at h
      split at h
      · obtain ⟨rfl, rfl⟩ := Prod.mk.inj (Option.some.inj h)
        exact .loadSpsc ‹_›
      · obtain ⟨rfl, rfl⟩ := Prod.mk.inj (Option.some.inj h)
        exact .loadBlocking ‹_›
  | occ | unlock =>
      cases choice <;> simp only [getstatsStep, reduceCtorEq] at h
      obtain ⟨rfl, rfl⟩ := Prod.mk.inj (Option.some.inj h)
      constructor

inductive PollMove (me : Nat) (w : World) : PollPc → World → Next PollPc → Prop
  | sampleSpsc (h : w.dev.mode = .SPSC) :
      PollMove me w .sample w (.to (.spscFull (spscIsEmpty w.dev)))
  | sampleBlocking (h : w.dev.mode = .BLOCKING) : PollMove me w .sample w (.to .lock)
  | spscFull {isEmpty : Bool} :
      PollMove me w (.spscFull isEmpty) w (.ret (.mask (pollMask isEmpty (spscIsFull w.dev))))
  | lock (h : w.lock = none) : PollMove me w .lock { w with lock := some me } (.to .test)
  | test :
      PollMove me w .test w (.to (.unlock (pollMask (ringIsEmpty w.dev) (ringIsFull w.dev))))
  | unlock {mask : BitVec 32} : PollMove me w (.unlock mask) w.release (.ret (.mask mask))

theorem pollStep_move {me : Nat} {w w' : World} {pc : PollPc} {choice : Choice}
    {next : Next PollPc} (h : pollStep me w pc choice = some (w', next)) :
    PollMove me w pc w' next := by
  cases pc with
  | sample =>
      cases choice <;> simp only [pollStep, reduceCtorEq] at h
      split at h
      · obtain ⟨rfl, rfl⟩ := Prod.mk.inj (Option.some.inj h)
        exact .sampleSpsc ‹_›
      · obtain ⟨rfl, rfl⟩ := Prod.mk.inj (Option.some.inj h)
        exact .sampleBlocking ‹_›
  | lock =>
      cases choice <;> simp only [pollStep, reduceCtorEq] at h
      obtain ⟨v, hv, hnext⟩ := Option.map_eq_some_iff.mp h
      obtain ⟨hl, rfl⟩ := acquire_eq_some hv
      obtain ⟨rfl, rfl⟩ := Prod.mk.inj hnext
      exact .lock hl
  | spscFull | test | unlock =>
      cases choice <;> simp only [pollStep, reduceCtorEq] at h
      obtain ⟨rfl, rfl⟩ := Prod.mk.inj (Option.some.inj h)
      constructor

end Ioctl

end Kbuf
