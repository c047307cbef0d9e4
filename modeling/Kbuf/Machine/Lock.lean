import Kbuf.Machine.Frame

namespace Kbuf

open Interleaving

-- The points of each function between its lock and its unlock.
def ReadPc.holds : ReadPc → Bool
  | .loop | .unlockSleep | .consume | .unlock _ => true
  | .lock | .wait _ | .wake _ => false

def WritePc.holds : WritePc → Bool
  | .clamp | .loop | .unlockSleep | .produce | .unlock _ => true
  | .lock | .wait _ | .relock | .wake _ => false

def ResizePc.holds : ResizePc → Bool
  | .swap _ | .unlockBusy _ | .unlock _ => true
  | .check | .alloc | .lock _ | .freeNew _ | .freeOld _ | .wake => false

def SmodePc.holds : SmodePc → Bool
  | .switch _ | .unlock _ => true
  | .check | .lock _ => false

def ResetPc.holds : ResetPc → Bool
  | .store _ | .unlock => true
  | .lock => false

def GetstatsPc.holds : GetstatsPc → Bool
  | .load | .occ .. | .unlock _ => true
  | .lock => false

def PollPc.holds : PollPc → Bool
  | .test | .unlock _ => true
  | .sample | .spscFull _ | .lock => false

def Local.holds : Local → Bool
  | .readBlocking _ _ pc => pc.holds
  | .writeBlocking _ _ pc => pc.holds
  | .resize _ pc => pc.holds
  | .smode _ pc => pc.holds
  | .reset pc => pc.holds
  | .getstats _ pc => pc.holds
  | .poll pc => pc.holds
  | .idle | .readEntry .. | .readSpsc .. | .writeEntry .. | .writeSpsc .. | .done _ => false

-- The lock is held by the process that is inside a critical section.
def LockInv (s : System) : Prop :=
  ∀ p, (s.locals p).holds = true ↔ s.shared.lock = some p

inductive LockEffect (me : Nat) (w : World) (here : Local) (w' : World) (next : Local) : Prop
  | acquire (h : w.lock = none) (h' : w'.lock = some me) (hn : next.holds = true)
  | release (hh : here.holds = true) (h' : w'.lock = none) (hn : next.holds = false)
  | keep (h : w'.lock = w.lock) (hn : next.holds = here.holds)

theorem Move.lock_effect {me : Nat} {choice : Choice} {w w' : World} {here next : Local}
    (h : Move me w choice here w' next) : LockEffect me w here w' next := by
  cases h with
  | @enter _ request hidle =>
      have hn : request.enter.holds = false := by cases request <;> rfl
      rcases hidle with rfl | ⟨ret, rfl⟩
      · exact .keep rfl hn
      · exact .keep rfl hn
  | readSampleSpsc | readSampleBlocking | writeSampleSpsc | writeSampleBlocking =>
      exact .keep rfl rfl
  | readBlocking h =>
      cases h with
      | lock hl => exact .acquire hl rfl rfl
      | unlockSleep | unlockOk | unlockError => exact .release rfl rfl rfl
      | @wait _ _ out hw => exact .keep hw.lock_eq (by cases out <;> rfl)
      | consume => exact .keep (consumeStep_lock ..) rfl
      | lockSignal | again | sleep | ready | wake => exact .keep rfl rfl
  | writeBlocking h =>
      cases h with
      | lock hl | relock hl => exact .acquire hl rfl rfl
      | unlockSleep | unlockOk | unlockError => exact .release rfl rfl rfl
      | @wait _ _ out hw => exact .keep hw.lock_eq (by cases out <;> rfl)
      | produce => exact .keep (produceStep_lock ..) rfl
      | lockSignal | relockSignal | clamp | again | sleep | ready | wake => exact .keep rfl rfl
  | readSpsc h =>
      cases h with
      | @wait _ _ out hw => exact .keep hw.lock_eq (by cases out <;> rfl)
      | empty | again | block | ready | sleep | consume | len | copyByte | copyFault | copyDone
      | publish | bytesLoad | bytesStore | msgsLoad | msgsStore | trace | wake =>
          exact .keep rfl rfl
  | writeSpsc h =>
      cases h with
      | @wait _ _ out hw => exact .keep hw.lock_eq (by cases out <;> rfl)
      | copyByte | setLen | clamp | full | again | block | ready | sleep | produce | copyFault
      | copyDone | publish
      | bytesLoad | bytesStore | msgsLoad | msgsStore | occ | peakHigher | peakKept | peakStore
      | wake => exact .keep rfl rfl
  | resize h =>
      cases h with
      | lock hl => exact .acquire hl rfl rfl
      | unlockBusy | unlock => exact .release rfl rfl rfl
      | reject | accept | nomem | alloc | busy | swap | freeNew | freeOld | wake =>
          exact .keep rfl rfl
  | smode h =>
      cases h with
      | lock hl => exact .acquire hl rfl rfl
      | unlock => exact .release rfl rfl rfl
      | reject | accept | refuse | switch => exact .keep rfl rfl
  | reset h =>
      cases h with
      | lock hl => exact .acquire hl rfl rfl
      | unlock => exact .release rfl rfl rfl
      | @store field => exact .keep rfl (by dsimp only [Next.lift, Local.holds]; split <;> rfl)
  | getstats h =>
      cases h with
      | lock hl => exact .acquire hl rfl rfl
      | unlock => exact .release rfl rfl rfl
      | loadSpsc | loadBlocking | occ => exact .keep rfl rfl
  | poll h =>
      cases h with
      | lock hl => exact .acquire hl rfl rfl
      | unlock => exact .release rfl rfl rfl
      | sampleSpsc | sampleBlocking | spscFull | test => exact .keep rfl rfl

theorem lockInv_step {s t : System} {act : Act Choice} (hinv : LockInv s)
    (h : step driver s act = some t) : LockInv t := by
  obtain ⟨w, next, hmove, rfl⟩ := step_move h
  have hme := hinv act.pid
  refine State.forall_put (P := fun p (here : Local) => here.holds = true ↔ w.lock = some p) ?_
    fun p hp => ?_
  · cases hmove.lock_effect with
    | acquire _ h' hn => simp [h', hn]
    | release _ h' hn => simp [h', hn]
    | keep h' hn => rw [h', hn]; exact hme
  · have hother := hinv p
    cases hmove.lock_effect with
    | acquire hl h' _ =>
        rw [hl] at hother
        simp [h', Ne.symm hp] at hother ⊢
        exact hother
    | release hh h' _ =>
        rw [hme.mp hh] at hother
        simp [h', Ne.symm hp] at hother ⊢
        exact hother
    | keep h' _ => rw [h']; exact hother

theorem lockInv_boot (dev : Dev) : LockInv (boot dev) := by
  intro p
  simp [boot, Local.holds]

theorem LockInv.eq_of_holds {s : System} (h : LockInv s) {p q : Nat}
    (hp : (s.locals p).holds = true) (hq : (s.locals q).holds = true) : p = q := by
  have := (h p).mp hp
  rw [(h q).mp hq] at this
  exact (Option.some.inj this).symm

end Kbuf
