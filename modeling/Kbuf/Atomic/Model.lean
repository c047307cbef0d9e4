import Kbuf.Blocking.Invariant
import Kbuf.Lib.AtomicObject
import Kbuf.Machine.Ownership
import Kbuf.Wakeup

namespace Kbuf

open Interleaving AtomicObject

section Object

def Request.call : Request → Call
  | .read _ u => .read u
  | .write _ u => .write u
  | .resize rq => .resize rq
  | .smode arg => .smode arg
  | .reset => .reset
  | .getstats fault => .getstats fault
  | .poll => .poll

-- The queue on which a caller is prepared to wait.
def Request.sleepsOn : Request → Option Wq
  | .read false _ => some .read
  | .write false _ => some .write
  | _ => none

def Request.mustWait (request : Request) (dev : Dev) : Bool :=
  match request.sleepsOn with
  | some side => dev.stuck side
  | none => false

def Dev.countSleep (dev : Dev) : Wq → Dev
  | .read => { dev with readSleeps := dev.readSleeps + 1 }
  | .write => { dev with writeSleeps := dev.writeSleeps + 1 }

-- The device as its users are meant to see it: each call is one step, a blocking read or
-- write waits for its turn and is counted when it has to, and a signal may end it.
def kbufObject : Object Dev Request Ret where
  apply dev request := if request.mustWait dev then none else some (exec dev request.call)
  stall dev request :=
    if request.mustWait dev then request.sleepsOn.map dev.countSleep else none
  abort
    | .read .. => some (.bytes (.error .ERESTARTSYS) [])
    | .write .. => some (.size (.error .ERESTARTSYS))
    | _ => none

def Local.returns (pid : Nat) : Local → Option (AtomicObject.Event Request Ret)
  | .done ret => some (.ret pid ret)
  | _ => none

-- What the users see of a step of the driver, by where it leaves the process.
def shown (act : Act Choice) (next : Local) : Option (AtomicObject.Event Request Ret) :=
  match act.choice with
  | .start request => some (.call act.pid request)
  | .go | .signal | .spurious => next.returns act.pid

end Object

section Conditions

-- Nobody asks for SPSC mode.
def StaysBlocking (_ : Nat) : Request → Prop
  | .smode arg => Mode.ofInt arg.mode ≠ some .SPSC
  | _ => True

-- A write that has cut its message to the buffer size and then let go of the lock.
def WritePc.waits : WritePc → Bool
  | .wait _ | .relock => true
  | .lock | .clamp | .loop | .unlockSleep | .produce | .unlock _ | .wake _ => false

def Local.waits : Local → Bool
  | .writeBlocking _ _ pc => pc.waits
  | _ => false

-- A RESIZE that changes the size of the buffers finds no write waiting for room.
def ResizesUnwaited (s : System) (act : Act Choice) : Prop :=
  ∀ rq ptr, s.locals act.pid = .resize rq (.swap ptr) → occupancy s.shared.dev = 0 →
    rq.bufferSize ≠ s.shared.dev.bufferSize → ∀ q, (s.locals q).waits = false

def resizesUnwaitedUpTo (bound : Nat) (s : System) (act : Act Choice) : Bool :=
  match s.locals act.pid with
  | .resize _ (.swap _) => (List.range bound).all fun q => !(s.locals q).waits
  | _ => true

theorem resizesUnwaited_of_upTo {bound : Nat} {s : System} {act : Act Choice}
    (hrest : ∀ q, bound ≤ q → s.locals q = .idle) (h : resizesUnwaitedUpTo bound s act = true) :
    ResizesUnwaited s act := by
  intro rq ptr hhere _ _ q
  rw [resizesUnwaitedUpTo, hhere] at h
  by_cases hq : q < bound
  · simpa using List.all_eq_true.mp h q (List.mem_range.mpr hq)
  · rw [hrest q (by omega)]
    rfl

end Conditions

section Progress

abbrev CallState := AtomicObject.Local Request Ret

def ReadPc.At (nonblock : Bool) (u : UserRead) (state : CallState) : ReadPc → Prop
  | .unlock ret | .wake ret => state = .applied ret
  | .lock | .loop | .unlockSleep | .wait _ | .consume => state = .called (.read nonblock u)

def WritePc.At (dev : Dev) (nonblock : Bool) (v : UserWrite) (state : CallState) : WritePc → Prop
  | .unlock ret | .wake ret => state = .applied ret
  | .lock | .clamp => state = .called (.write nonblock v)
  | .loop | .unlockSleep | .wait _ | .relock | .produce =>
      ∃ u, state = .called (.write nonblock u) ∧ v = u.clamp dev.bufferSize

def ResizePc.At (w : World) (rq : ResizeArg) (state : CallState) : ResizePc → Prop
  | .check => state = .called (.resize rq)
  | .alloc => state = .called (.resize rq) ∧ resizeCheck w.dev rq = .ok ()
  | .lock ptr | .swap ptr =>
      state = .called (.resize rq) ∧ resizeCheck w.dev rq = .ok () ∧
        allocSlots rq.kmalloc rq.numBuffers rq.bufferSize = some (w.array ptr)
  | .unlockBusy _ | .freeNew _ => state = .applied (.status (.error .EBUSY))
  | .unlock _ | .freeOld _ | .wake => state = .applied (.status (.ok ()))

def SmodePc.At (arg : SmodeArg) (state : CallState) : SmodePc → Prop
  | .check => state = .called (.smode arg) ∧ Mode.ofInt arg.mode ≠ some .SPSC
  | .lock mode | .switch mode =>
      state = .called (.smode arg) ∧ smodeCheck arg = .ok mode ∧ mode = .BLOCKING
  | .unlock val => state = .applied (.status val)

-- RESET takes effect when it gets the lock, before its stores.
def ResetPc.At (state : CallState) : ResetPc → Prop
  | .lock => state = .called .reset
  | .store field => state = .applied (.status (.ok ())) ∧ field ≤ 6
  | .unlock => state = .applied (.status (.ok ()))

def GetstatsPc.At (fault : Bool) (state : CallState) : GetstatsPc → Prop
  | .lock | .load => state = .called (.getstats fault)
  | .occ .. => False
  | .unlock stats => state = .applied (.stats (if fault then .error .EFAULT else .ok stats))

def PollPc.At (state : CallState) : PollPc → Prop
  | .sample | .lock | .test => state = .called .poll
  | .spscFull _ => False
  | .unlock mask => state = .applied (.mask mask)

-- How far the call of a process has got: it has not taken effect yet, or it has.
def Local.At (w : World) (state : CallState) : Local → Prop
  | .idle => state = .idle
  | .done ret => state = .returned ret
  | .readEntry nonblock u => state = .called (.read nonblock u)
  | .readBlocking nonblock u pc => pc.At nonblock u state
  | .writeEntry nonblock u => state = .called (.write nonblock u)
  | .writeBlocking nonblock v pc => pc.At w.dev nonblock v state
  | .readSpsc .. | .writeSpsc .. => False
  | .resize rq pc => pc.At w rq state
  | .smode arg pc => pc.At arg state
  | .reset pc => pc.At state
  | .getstats fault pc => pc.At fault state
  | .poll pc => pc.At state

-- The stores of kbuf_ioc_reset from one field on.
def resetRest (dev : Dev) (field : Nat) : Dev :=
  (List.range' field (7 - field)).foldl resetStore dev

-- The device that the holder of the lock will leave.
def Local.completes (dev : Dev) : Local → Dev
  | .reset (.store field) => resetRest dev field
  | _ => dev

end Progress

section Completion

theorem resetRest_zero (dev : Dev) : resetRest dev 0 = iocReset dev := by
  simp only [resetRest, List.range', List.foldl_cons, List.foldl_nil, resetStore, iocReset]

theorem resetRest_step (dev : Dev) {field : Nat} (h : field ≤ 6) :
    resetRest dev field = resetRest (resetStore dev field) (field + 1) := by
  have hlen : 7 - field = (7 - (field + 1)) + 1 := by omega
  rw [resetRest, hlen, List.range'_succ, List.foldl_cons]
  rfl

theorem completes_of_not_holds {here : Local} (dev : Dev) (h : here.holds = false) :
    here.completes dev = dev := by
  unfold Local.completes
  split
  · cases h
  · rfl

theorem resetStore_mode (dev : Dev) (field : Nat) : (resetStore dev field).mode = dev.mode := by
  unfold resetStore
  split <;> rfl

theorem completes_mode (here : Local) (dev : Dev) : (here.completes dev).mode = dev.mode := by
  unfold Local.completes
  split
  · rename_i field
    rw [resetRest]
    generalize List.range' field (7 - field) = fields
    induction fields generalizing dev with
    | nil => rfl
    | cons first rest ih => exact (ih _).trans (resetStore_mode dev first)
  · rfl

end Completion

end Kbuf
