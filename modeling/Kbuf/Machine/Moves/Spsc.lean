import Kbuf.Machine.Moves.Blocking

namespace Kbuf

open Interleaving

section Spsc

inductive SpscReadMove (nonblock : Bool) (u : UserRead) (me : Nat) (w : World) :
    SpscReadPc → World → Next SpscReadPc → Prop
  | empty : SpscReadMove nonblock u me w .empty w (.to (.emptyCons w.dev.prodIdx))
  | again {prod : BitVec 32} (he : prod = w.dev.consIdx) (hn : nonblock = true) :
      SpscReadMove nonblock u me w (.emptyCons prod) w (.ret (.bytes (.error .EAGAIN) []))
  | block {prod : BitVec 32} (he : prod = w.dev.consIdx) (hn : nonblock = false) :
      SpscReadMove nonblock u me w (.emptyCons prod) w (.to .sleep)
  | ready {prod : BitVec 32} (he : prod ≠ w.dev.consIdx) :
      SpscReadMove nonblock u me w (.emptyCons prod) w (.to .consume)
  | sleep :
      SpscReadMove nonblock u me w .sleep
        { w with dev := { w.dev with readSleeps := w.dev.readSleeps + 1 } } (.to (.wait .first))
  | wait {pc : WaitPc} {w' : World} {next : WaitNext}
      (h : WaitMove .read (fun dev => !spscIsEmpty dev) me w pc w' next) :
      SpscReadMove nonblock u me w (.wait pc) w' (SpscReadPc.afterWait next)
  | consume :
      SpscReadMove nonblock u me w .consume w
        (.to (.len w.dev.consIdx (w.slotAt w.dev.consIdx)))
  | len {cons : BitVec 32} {slot : SlotPtr} :
      SpscReadMove nonblock u me w (.len cons slot) w
        (.to (.copy ⟨cons, slot, min u.count (w.load slot).len, []⟩))
  | copyByte {f : Consuming} (hl : f.out.length < f.len) (hr : f.out.length < u.room) :
      SpscReadMove nonblock u me w (.copy f) w
        (.to (.copy { f with out := f.out ++ [(w.load f.slot).data.getD f.out.length 0] }))
  | copyFault {f : Consuming} (hl : f.out.length < f.len) (hr : u.room ≤ f.out.length) :
      SpscReadMove nonblock u me w (.copy f) w (.ret (.bytes (.error .EFAULT) f.out))
  | copyDone {f : Consuming} (hl : f.len ≤ f.out.length) :
      SpscReadMove nonblock u me w (.copy f) w (.to (.publish f))
  | publish {f : Consuming} :
      SpscReadMove nonblock u me w (.publish f)
        { w with
          dev := { w.dev with consIdx := f.cons + 1 }
          log := w.log ++ [.consumed me u.count f.out] } (.to (.bytesLoad f))
  | bytesLoad {f : Consuming} :
      SpscReadMove nonblock u me w (.bytesLoad f) w (.to (.bytesStore f w.dev.bytesConsumed))
  | bytesStore {f : Consuming} {bytes : BitVec 64} :
      SpscReadMove nonblock u me w (.bytesStore f bytes)
        { w with dev := { w.dev with bytesConsumed := bytes + BitVec.ofNat 64 f.len } }
        (.to (.msgsLoad f))
  | msgsLoad {f : Consuming} :
      SpscReadMove nonblock u me w (.msgsLoad f) w (.to (.msgsStore f w.dev.msgsConsumed))
  | msgsStore {f : Consuming} {msgs : BitVec 64} :
      SpscReadMove nonblock u me w (.msgsStore f msgs)
        { w with dev := { w.dev with msgsConsumed := msgs + 1 } } (.to (.trace f))
  | trace {f : Consuming} : SpscReadMove nonblock u me w (.trace f) w (.to (.wake f))
  | wake {f : Consuming} :
      SpscReadMove nonblock u me w (.wake f) (w.wakeUp .write) (.ret f.ret)

theorem readSpscStep_move {nonblock : Bool} {u : UserRead} {me : Nat} {w w' : World}
    {pc : SpscReadPc} {choice : Choice} {next : Next SpscReadPc}
    (h : readSpscStep nonblock u me w pc choice = some (w', next)) :
    SpscReadMove nonblock u me w pc w' next := by
  cases pc with
  | wait pc =>
      simp only [readSpscStep] at h
      obtain ⟨⟨v, out⟩, hv, hnext⟩ := Option.map_eq_some_iff.mp h
      obtain ⟨rfl, rfl⟩ := Prod.mk.inj hnext
      exact .wait (waitEvent_move hv)
  | emptyCons prod =>
      cases choice <;> simp only [readSpscStep, reduceCtorEq] at h
      split at h
      · rename_i he
        split at h
        · rename_i hn
          obtain ⟨rfl, rfl⟩ := Prod.mk.inj (Option.some.inj h)
          exact .again he hn
        · rename_i hn
          obtain ⟨rfl, rfl⟩ := Prod.mk.inj (Option.some.inj h)
          exact .block he (Bool.eq_false_iff.mpr hn)
      · rename_i he
        obtain ⟨rfl, rfl⟩ := Prod.mk.inj (Option.some.inj h)
        exact .ready he
  | copy f =>
      cases choice <;> simp only [readSpscStep, reduceCtorEq] at h
      split at h
      · rename_i hl
        split at h
        · rename_i hr
          obtain ⟨rfl, rfl⟩ := Prod.mk.inj (Option.some.inj h)
          exact .copyByte hl hr
        · rename_i hr
          obtain ⟨rfl, rfl⟩ := Prod.mk.inj (Option.some.inj h)
          exact .copyFault hl (Nat.le_of_not_lt hr)
      · rename_i hl
        obtain ⟨rfl, rfl⟩ := Prod.mk.inj (Option.some.inj h)
        exact .copyDone (Nat.le_of_not_lt hl)
  | empty | sleep | consume | len | publish | bytesLoad | bytesStore | msgsLoad | msgsStore
  | trace | wake =>
      cases choice <;> simp only [readSpscStep, reduceCtorEq] at h
      obtain ⟨rfl, rfl⟩ := Prod.mk.inj (Option.some.inj h)
      constructor

inductive SpscWriteMove (nonblock : Bool) (u : UserWrite) (me : Nat) (w : World) :
    SpscWritePc → World → Next (UserWrite × SpscWritePc) → Prop
  | clamp : SpscWriteMove nonblock u me w .clamp w (.to (u.clamp w.dev.bufferSize, .full))
  | full : SpscWriteMove nonblock u me w .full w (.to (u, .fullCons w.dev.prodIdx))
  | again {prod : BitVec 32} (he : w.dev.numBuffers ≤ (prod - w.dev.consIdx).toNat)
      (hn : nonblock = true) :
      SpscWriteMove nonblock u me w (.fullCons prod) w (.ret (.size (.error .EAGAIN)))
  | block {prod : BitVec 32} (he : w.dev.numBuffers ≤ (prod - w.dev.consIdx).toNat)
      (hn : nonblock = false) :
      SpscWriteMove nonblock u me w (.fullCons prod) w (.to (u, .sleep))
  | ready {prod : BitVec 32} (he : (prod - w.dev.consIdx).toNat < w.dev.numBuffers) :
      SpscWriteMove nonblock u me w (.fullCons prod) w (.to (u, .produce))
  | sleep :
      SpscWriteMove nonblock u me w .sleep
        { w with dev := { w.dev with writeSleeps := w.dev.writeSleeps + 1 } }
        (.to (u, .wait .first))
  | wait {pc : WaitPc} {w' : World} {next : WaitNext}
      (h : WaitMove .write (fun dev => !spscIsFull dev) me w pc w' next) :
      SpscWriteMove nonblock u me w (.wait pc) w' (SpscWritePc.afterWait u next)
  | produce :
      SpscWriteMove nonblock u me w .produce w
        (.to (u, .copy ⟨w.dev.prodIdx, w.slotAt w.dev.prodIdx⟩ 0))
  | copyByte {f : Producing} {i : Nat} (hi : i < u.count) :
      SpscWriteMove nonblock u me w (.copy f i) (storeByte w f.slot u.ubuf i)
        (.to (u, .copy f (i + 1)))
  | copyFault {f : Producing} {i : Nat} (hi : u.count ≤ i) (hu : u.ubuf.length < u.count) :
      SpscWriteMove nonblock u me w (.copy f i) w (.ret (.size (.error .EFAULT)))
  | copyDone {f : Producing} {i : Nat} (hi : u.count ≤ i) (hu : u.count ≤ u.ubuf.length) :
      SpscWriteMove nonblock u me w (.copy f i) w (.to (u, .setLen f))
  | setLen {f : Producing} :
      SpscWriteMove nonblock u me w (.setLen f)
        (w.store f.slot { w.load f.slot with len := u.count }) (.to (u, .publish f))
  | publish {f : Producing} :
      SpscWriteMove nonblock u me w (.publish f)
        { w with
          dev := { w.dev with prodIdx := f.prod + 1 }
          log := w.log ++ [.produced me (u.ubuf.take u.count)] } (.to (u, .bytesLoad f))
  | bytesLoad {f : Producing} :
      SpscWriteMove nonblock u me w (.bytesLoad f) w
        (.to (u, .bytesStore f w.dev.bytesProduced))
  | bytesStore {f : Producing} {bytes : BitVec 64} :
      SpscWriteMove nonblock u me w (.bytesStore f bytes)
        { w with dev := { w.dev with bytesProduced := bytes + BitVec.ofNat 64 u.count } }
        (.to (u, .msgsLoad f))
  | msgsLoad {f : Producing} :
      SpscWriteMove nonblock u me w (.msgsLoad f) w (.to (u, .msgsStore f w.dev.msgsProduced))
  | msgsStore {f : Producing} {msgs : BitVec 64} :
      SpscWriteMove nonblock u me w (.msgsStore f msgs)
        { w with dev := { w.dev with msgsProduced := msgs + 1 } } (.to (u, .occ f))
  | occ {f : Producing} :
      SpscWriteMove nonblock u me w (.occ f) w (.to (u, .peak (f.prod + 1 - w.dev.consIdx)))
  | peakHigher {occ : BitVec 32} (h : w.dev.peakCount < occ.toNat) :
      SpscWriteMove nonblock u me w (.peak occ) w (.to (u, .peakStore occ))
  | peakKept {occ : BitVec 32} (h : occ.toNat ≤ w.dev.peakCount) :
      SpscWriteMove nonblock u me w (.peak occ) w (.to (u, .wake))
  | peakStore {occ : BitVec 32} :
      SpscWriteMove nonblock u me w (.peakStore occ)
        { w with dev := { w.dev with peakCount := occ.toNat } } (.to (u, .wake))
  | wake : SpscWriteMove nonblock u me w .wake (w.wakeUp .read) (.ret (.size (.ok u.count)))

theorem writeSpscStep_move {nonblock : Bool} {u : UserWrite} {me : Nat} {w w' : World}
    {pc : SpscWritePc} {choice : Choice} {next : Next (UserWrite × SpscWritePc)}
    (h : writeSpscStep nonblock u me w pc choice = some (w', next)) :
    SpscWriteMove nonblock u me w pc w' next := by
  cases pc with
  | wait pc =>
      simp only [writeSpscStep] at h
      obtain ⟨⟨v, out⟩, hv, hnext⟩ := Option.map_eq_some_iff.mp h
      obtain ⟨rfl, rfl⟩ := Prod.mk.inj hnext
      exact .wait (waitEvent_move hv)
  | fullCons prod =>
      cases choice <;> simp only [writeSpscStep, reduceCtorEq] at h
      split at h
      · rename_i he
        split at h
        · rename_i hn
          obtain ⟨rfl, rfl⟩ := Prod.mk.inj (Option.some.inj h)
          exact .again he hn
        · rename_i hn
          obtain ⟨rfl, rfl⟩ := Prod.mk.inj (Option.some.inj h)
          exact .block he (Bool.eq_false_iff.mpr hn)
      · rename_i he
        obtain ⟨rfl, rfl⟩ := Prod.mk.inj (Option.some.inj h)
        exact .ready (Nat.lt_of_not_le he)
  | copy f i =>
      cases choice <;> simp only [writeSpscStep, reduceCtorEq] at h
      split at h
      · rename_i hi
        obtain ⟨rfl, rfl⟩ := Prod.mk.inj (Option.some.inj h)
        exact .copyByte hi
      · rename_i hi
        split at h
        · rename_i hu
          obtain ⟨rfl, rfl⟩ := Prod.mk.inj (Option.some.inj h)
          exact .copyFault (Nat.le_of_not_lt hi) hu
        · rename_i hu
          obtain ⟨rfl, rfl⟩ := Prod.mk.inj (Option.some.inj h)
          exact .copyDone (Nat.le_of_not_lt hi) (Nat.le_of_not_lt hu)
  | peak occ =>
      cases choice <;> simp only [writeSpscStep, reduceCtorEq] at h
      split at h
      · rename_i hp
        obtain ⟨rfl, rfl⟩ := Prod.mk.inj (Option.some.inj h)
        exact .peakHigher hp
      · rename_i hp
        obtain ⟨rfl, rfl⟩ := Prod.mk.inj (Option.some.inj h)
        exact .peakKept (Nat.le_of_not_lt hp)
  | clamp | full | sleep | produce | setLen | publish | bytesLoad | bytesStore | msgsLoad
  | msgsStore | occ | peakStore | wake =>
      cases choice <;> simp only [writeSpscStep, reduceCtorEq] at h
      obtain ⟨rfl, rfl⟩ := Prod.mk.inj (Option.some.inj h)
      constructor

end Spsc

end Kbuf
