import Kbuf.Failure.Commit
import Kbuf.Failure.Retry

namespace Kbuf

open Interleaving FreeRunning Circular

section Definitions

-- The slots that hold an accepted message, as the current mode counts them.
def Occupied (dev : Dev) (index : Nat) : Prop :=
  match dev.mode with
  | .SPSC => ∃ i : BitVec 32, (i - dev.consIdx).toNat < (dev.prodIdx - dev.consIdx).toNat ∧
      index = dev.masked i
  | .BLOCKING => ∃ i, i < dev.count.toNat ∧ index = (dev.readPos + i) % dev.numBuffers

-- Nothing but the sleep counters and the bytes of free slots may differ.
structure Unchanged (w w' : World) : Prop where
  slotsPtr : w'.slotsPtr = w.slotsPtr
  fields : { w'.dev with
    slots := w.dev.slots
    readSleeps := w.dev.readSleeps
    writeSleeps := w.dev.writeSleeps } = w.dev
  lens : w'.dev.slots.map Slot.len = w.dev.slots.map Slot.len
  occupied : ∀ index, Occupied w.dev index → w'.dev.slot index = w.dev.slot index

end Definitions

section Slots

variable {w w' : World}

theorem map_len_setSlot (dev : Dev) (index : Nat) (data : List UInt8) :
    (dev.setSlot index { dev.slot index with data := data }).slots.map Slot.len =
      dev.slots.map Slot.len := by
  apply List.ext_getElem?
  intro i
  simp only [Dev.setSlot, List.getElem?_map, List.getElem?_set]
  by_cases hi : index = i
  · subst hi
    by_cases hlt : index < dev.slots.length
    · simp [hlt, Dev.slot]
    · simp [hlt]
  · simp [hi]

-- New bytes in a free slot.
theorem Unchanged.of_setSlot {index : Nat} (data : List UInt8) (hptr : w'.slotsPtr = w.slotsPtr)
    (hdev : w'.dev = w.dev.setSlot index { w.dev.slot index with data := data })
    (hfree : ¬Occupied w.dev index) : Unchanged w w' where
  slotsPtr := hptr
  fields := by
    rw [hdev]
    rfl
  lens := by
    rw [hdev]
    exact map_len_setSlot w.dev index data
  occupied other hother := by
    have hne : other ≠ index := fun heq => hfree (heq ▸ hother)
    rw [hdev]
    exact slot_setSlot_of_ne hne _

theorem Filling.slot_free {u : UserWrite} {f : Producing} (hdev : Wellformed w.dev)
    (hmode : w.dev.mode = .SPSC) (hf : Filling w.dev.ring w.slotsPtr u f) :
    ¬Occupied w.dev f.slot.index := by
  have hring : SpscRing w.dev := by simpa only [Discipline, hmode] using hdev.discipline
  intro hocc
  unfold Occupied at hocc
  rw [hmode, hf.slot] at hocc
  obtain ⟨i, hi, heq⟩ := hocc
  exact masked_ne_prodIdx hring.power hdev.geometry.num_lt hi hf.room heq.symm

theorem BlockingDev.writePos_free {n size : Nat} (hd : BlockingDev n size w.dev)
    (hfull : ringIsFull w.dev = false) : ¬Occupied w.dev w.dev.writePos := by
  have hlt := hd.ring.lt_of_not_full hd.geometry hfull
  intro hocc
  unfold Occupied at hocc
  rw [hd.mode] at hocc
  obtain ⟨i, hi, heq⟩ := hocc
  exact position_ne _ _ hi (by omega) (heq.symm.trans hd.ring.writePos_eq)

theorem storeByte_dev (w : World) (index : Nat) (ubuf : List UInt8) (i : Nat) :
    (storeByte w ⟨w.slotsPtr, index⟩ ubuf i).dev =
      w.dev.setSlot index { w.dev.slot index with
        data := (w.dev.slot index).data.set i (ubuf.getD i 0) } := by
  simp [storeByte, World.store, World.setArray, World.load, Dev.setSlot, Dev.slot]

-- An attempt hits only free slots.
theorem Attempt.unchanged {here : Local} (hdev : Wellformed w.dev) (hhere : here.Relies w)
    (h : Attempt w here w') : Unchanged w w' := by
  cases h with
  | quiet reads writes hptr hdev =>
      refine ⟨hptr, ?_, ?_, fun index _ => ?_⟩
      · rw [hdev]
      · rw [hdev]
      · rw [hdev]
        rfl
  | @copy nonblock u f i hat hw =>
      subst hat hw
      obtain ⟨hmode, hf, -⟩ := hhere
      have hfree := hf.slot_free hdev hmode
      rw [hf.slot] at hfree ⊢
      exact .of_setSlot _ rfl (storeByte_dev w _ u.ubuf i) hfree
  | fault data hat hptr hw =>
      subst hat
      obtain ⟨hmode, -, hroom⟩ := hhere
      exact .of_setSlot data hptr hw ((hdev.blockingDev hmode).writePos_free (hroom rfl))

-- A copy that is under way or about to start fits the slot it goes to.
theorem Local.Relies.copies_fit {here : Local} {slot : SlotPtr} {count : Nat}
    (hdev : Wellformed w.dev) (hhere : here.Relies w)
    (h : here.copiesInto w = some (slot, count)) : count ≤ (w.load slot).data.length := by
  unfold Local.copiesInto at h
  split at h
  · obtain ⟨rfl, rfl⟩ := Prod.mk.inj (Option.some.inj h)
    obtain ⟨hmode, hfits, -⟩ := hhere
    have hlt := (hdev.blockingDev hmode).ring.writePos_lt hdev.geometry
    have hlen := hdev.geometry.data_length _ (slot_mem hdev.geometry hlt)
    rw [load_ring]
    exact Nat.le_trans (hfits rfl) (Nat.le_of_eq hlen.symm)
  · obtain ⟨rfl, rfl⟩ := Prod.mk.inj (Option.some.inj h)
    obtain ⟨hmode, hf, -⟩ := hhere
    have hring : SpscRing w.dev := by simpa only [Discipline, hmode] using hdev.discipline
    have hlt := hring.masked_lt hdev.geometry w.dev.prodIdx
    have hlen := hdev.geometry.data_length _ (slot_mem hdev.geometry hlt)
    rw [hf.slot, load_ring]
    exact Nat.le_trans hf.fits (Nat.le_of_eq hlen.symm)
  · cases h

end Slots

section Retry

-- A read that faults leaves its message to the next read.
theorem read_after_fault {dev : Dev} (hdev : Wellformed dev) {u : UserRead} {out : List UInt8}
    (h : (exec dev (.read u)).2 = .bytes (.error .EFAULT) out) :
    ∃ message rest, queue dev = message :: rest ∧
      ∀ v : UserRead, message.length ≤ v.count → message.length ≤ v.room →
        (exec (exec dev (.read u)).1 (.read v)).2 = .bytes (.ok message.length) message := by
  obtain ⟨hnext, hstep⟩ := exec_refined hdev (.read u)
  simp only [Fifo.Step, Fifo.ReadStep] at hstep
  split at hstep
  · rw [h] at hstep
    cases hstep.1
  · rename_i message rest hqueue
    split at hstep
    · rw [h] at hstep
      cases hstep.1
    · refine ⟨message, rest, hqueue, fun v hcount hroom => ?_⟩
      obtain ⟨hlast, hagain⟩ := exec_refined hnext (.read v)
      rw [hstep.2] at hagain
      simp only [Fifo.Step, Fifo.ReadStep, hqueue, Nat.min_eq_right hcount, hroom, ite_true,
        List.take_of_length_le hcount] at hagain
      exact hagain.1

end Retry

section Runs

variable {dev : Dev} {acts : List (Act Choice)} {s : System}

-- Each step of a call that fails later on.
theorem CallSpan.unchanged {p : Nat} {request : Request} {start t u : System}
    {during first rest : List (Act Choice)} {act : Act Choice} {ret : Ret}
    (hspan : CallSpan (boot dev) acts p request start during) (hdev : Wellformed dev)
    (hcontract : Along driver Contract (boot dev) acts)
    (hclear : Along driver ResizesClear (boot dev) acts)
    (hrun : run driver (boot dev) acts = some s) (hdone : s.locals p = .done ret)
    (hfailed : ret.ok = false) (hsplit : during = first ++ act :: rest) (hact : act.pid = p)
    (hfirst : run driver start first = some t) (hstep : step driver t act = some u) :
    Unchanged t.shared u.shared := by
  have hattempt := hspan.attempts hrun hdone hfailed hsplit hact hfirst hstep
  obtain ⟨before, hacts, hstart⟩ := hspan.split
  have hreach := run_append_of_some hstart hfirst
  have hwhole : acts = ((before ++ [⟨p, .start request⟩]) ++ first) ++ act :: rest := by
    rw [hacts, hsplit, List.append_assoc _ first]
  rw [hwhole] at hcontract hclear
  have hinv := messageInv_run hdev (hcontract.split hreach).1 (hclear.split hreach).1 hreach
  exact hattempt.unchanged hinv.wellformed (hinv.relies p)

end Runs

section Faults

-- A write whose second byte cannot be fetched.
def faultyWrite : Request := .write true ⟨[9], 2⟩

-- A RESIZE to three slots, checked in BLOCKING mode, goes through after the switch
-- to SPSC mode. Indices 0 and 1 then name the same slot, which holds a message.
def messageInThreeSlots : List (Act Choice) :=
  ⟨2, .start (.resize ⟨false, 3, 2, fun _ => true⟩)⟩ :: proceed 2 2 ++
    ⟨3, .start (.smode ⟨false, 1⟩)⟩ :: proceed 3 4 ++ proceed 2 5 ++
    ⟨0, .start (.write true ⟨[7], 1⟩)⟩ :: proceed 0 17

-- The same message in a ring that a RESIZE has given two slots.
def messageInTwoSlots : List (Act Choice) :=
  ⟨2, .start (.resize ⟨false, 2, 2, fun _ => true⟩)⟩ :: proceed 2 7 ++
    ⟨0, .start (.write true ⟨[7], 1⟩)⟩ :: proceed 0 17

def contractUpTo (bound : Nat) (s : System) (act : Act Choice) : Bool :=
  match s.locals act.pid with
  | .writeEntry .. => (List.range bound).all fun q => !(s.locals q).spscWriter
  | .readEntry .. => (List.range bound).all fun q => !(s.locals q).spscReader
  | .smode _ (.switch _) => (List.range bound).all fun q => (s.locals q).path = none
  | _ => true

def resizesClearUpTo (bound : Nat) (s : System) (act : Act Choice) : Bool :=
  match s.locals act.pid with
  | .resize rq (.swap _) =>
      ((List.range bound).all fun q => !(s.locals q).caught) && isPowerOf2 rq.numBuffers &&
        clampedFitUpTo bound s act
  | _ => true

variable {bound : Nat} {s : System} {act : Act Choice}

theorem contract_of_upTo (hidle : ∀ q, bound ≤ q → s.locals q = .idle)
    (h : contractUpTo bound s act = true) : Contract s act := by
  have hrest {kind : Local → Bool} (hkind : kind .idle = false)
      (hall : ∀ q < bound, kind (s.locals q) = false) (q : Nat) : kind (s.locals q) = false := by
    by_cases hq : q < bound
    · exact hall q hq
    · rw [hidle q (Nat.le_of_not_lt hq)]
      exact hkind
  refine ⟨⟨fun nonblock u hhere _ => ?_, fun nonblock u hhere _ => ?_⟩,
    fun arg mode hhere _ q => ?_⟩
  · simp only [contractUpTo, hhere, List.all_eq_true, List.mem_range, Bool.not_eq_true'] at h
    exact hrest rfl h
  · simp only [contractUpTo, hhere, List.all_eq_true, List.mem_range, Bool.not_eq_true'] at h
    exact hrest rfl h
  · simp only [contractUpTo, hhere, List.all_eq_true, List.mem_range, decide_eq_true_eq] at h
    by_cases hq : q < bound
    · exact h q hq
    · rw [hidle q (Nat.le_of_not_lt hq)]
      rfl

theorem resizesClear_of_upTo (hidle : ∀ q, bound ≤ q → s.locals q = .idle)
    (h : resizesClearUpTo bound s act = true) : ResizesClear s act := by
  have hall (rq : ResizeArg) (ptr : Nat) (hhere : s.locals act.pid = .resize rq (.swap ptr)) :
      (∀ q < bound, (s.locals q).caught = false) ∧ isPowerOf2 rq.numBuffers = true ∧
        clampedFitUpTo bound s act = true := by
    simpa only [resizesClearUpTo, hhere, List.all_eq_true, List.mem_range, Bool.not_eq_true',
      Bool.and_eq_true, and_assoc] using h
  refine ⟨fun rq ptr hhere _ q => ?_, fun rq ptr hhere => ?_, fun rq ptr hhere _ _ => ?_⟩
  · by_cases hq : q < bound
    · exact (hall rq ptr hhere).1 q hq
    · rw [hidle q (Nat.le_of_not_lt hq)]
      rfl
  · exact clampedFit_of_upTo hidle (hall rq ptr hhere).2.2 rq ptr hhere
  · exact (hall rq ptr hhere).2.1

-- A read into memory that cannot be written. While it is copying, another message is
-- written.
def faultyRead : Request := .read true ⟨4, 0⟩

def faultDuringWrite : List (Act Choice) :=
  proceed 1 5 ++ ⟨0, .start (.write true ⟨[8], 1⟩)⟩ :: proceed 0 17 ++ proceed 1 1

def readAgain : List (Act Choice) := ⟨1, .start (.read true ⟨4, 4⟩)⟩ :: proceed 1 14

end Faults

end Kbuf
