import Kbuf.Machine.Count

namespace Kbuf

open Interleaving

section Definitions

-- The condition on which the callers of one side have to wait.
def Dev.stuck (dev : Dev) : Wq → Bool
  | .read =>
      match dev.mode with
      | .SPSC => spscIsEmpty dev
      | .BLOCKING => ringIsEmpty dev
  | .write =>
      match dev.mode with
      | .SPSC => spscIsFull dev
      | .BLOCKING => ringIsFull dev

def Local.parkedOn : Wq → Local → Bool
  | .read, .readBlocking _ _ (.wait .asleep) => true
  | .read, .readSpsc _ _ (.wait .asleep) => true
  | .write, .writeBlocking _ _ (.wait .asleep) => true
  | .write, .writeSpsc _ _ (.wait .asleep) => true
  | _, _ => false

-- The points between the store that publishes an index and the wakeup.
def SpscReadPc.published : SpscReadPc → Bool
  | .bytesLoad _ | .bytesStore .. | .msgsLoad _ | .msgsStore .. | .trace _ | .wake _ => true
  | _ => false

def SpscWritePc.published : SpscWritePc → Bool
  | .bytesLoad _ | .bytesStore .. | .msgsLoad _ | .msgsStore .. | .occ _ | .peak _
  | .peakStore _ | .wake => true
  | _ => false

-- The process has completed its produce or consume and has not yet woken the other side.
def Local.owesWake : Wq → Local → Bool
  | .read, .writeBlocking _ _ (.unlock ret) => ret.ok
  | .read, .writeBlocking _ _ (.wake _) => true
  | .read, .writeSpsc _ _ pc => pc.published
  | .write, .readBlocking _ _ (.unlock ret) => ret.ok
  | .write, .readBlocking _ _ (.wake _) => true
  | .write, .readSpsc _ _ pc => pc.published
  | _, _ => false

-- Reads, writes and resizes by anybody in blocking mode, one producer and one
-- consumer in SPSC mode.
def FixedMode (mode : Mode) (producer consumer p : Nat) : Request → Prop
  | .read .. => mode = .SPSC → p = consumer
  | .write .. => mode = .SPSC → p = producer
  | .resize _ => mode = .BLOCKING
  | .smode _ | .reset | .getstats _ | .poll => False

-- Where the processes of such a run can be.
def Local.InFixedMode (mode : Mode) (producer consumer p : Nat) : Local → Prop
  | .idle | .done _ => True
  | .readEntry .. => mode = .SPSC → p = consumer
  | .writeEntry .. => mode = .SPSC → p = producer
  | .readBlocking .. | .writeBlocking .. | .resize .. => mode = .BLOCKING
  | .readSpsc .. => mode = .SPSC ∧ p = consumer
  | .writeSpsc .. => mode = .SPSC ∧ p = producer
  | .smode .. | .reset _ | .getstats .. | .poll _ => False

def Local.spscOn : Wq → Local → Bool
  | .read, .readSpsc .. => true
  | .write, .writeSpsc .. => true
  | _, _ => false

end Definitions

section Waiting

variable {wq : Wq} {cond : Dev → Bool} {me : Nat} {w w' : World} {pc : WaitPc}

-- Nobody falls asleep without having seen the condition false while on the queue.
theorem WaitMove.asleep (h : WaitMove wq cond me w pc w' (.wait .asleep)) :
    cond w'.dev = false := by
  cases h with
  | testFalse hc => exact hc

end Waiting

section Steps

variable {side : Wq} {me : Nat} {w w' : World} {here next : Local}

-- What a step can do to the obligation of one side: take it over, discharge it,
-- concern nobody else on that side, or leave it as it was.
inductive WakeEffect (side : Wq) (me : Nat) (w : World) (here : Local) (w' : World)
    (next : Local) : Prop
  | owes (h : next.owesWake side = true)
  | wakes (h : w'.waiters side = [])
  | alone (h : here.spscOn side = true) (hparked : next.parkedOn side = false)
  | quiet (hstuck : w.dev.stuck side = true → w'.dev.stuck side = true)
      (howes : here.owesWake side = false)
      (hparked : next.parkedOn side = true → w'.dev.stuck side = true)
      (hwaiters : ∀ p, p ≠ me → p ∈ w'.waiters side → p ∈ w.waiters side)

theorem WakeEffect.still (hstuck : w'.dev.stuck side = w.dev.stuck side)
    (howes : here.owesWake side = false) (hparked : next.parkedOn side = false)
    (hwaiters : w'.waiters side = w.waiters side) : WakeEffect side me w here w' next := by
  refine .quiet ?_ howes ?_ ?_
  · rw [hstuck]
    exact id
  · rw [hparked]
    exact fun h => by cases h
  · rw [hwaiters]
    exact fun _ _ h => h

theorem Waiting.owesWake {wq : Wq} {out : WaitNext} (h : Waiting out wq here next) :
    here.owesWake side = false := by
  cases h <;> cases side <;> rfl

-- Of the places that waiting leads to, only the one asleep is parked, and on its own queue.
theorem Waiting.parkedOn {wq : Wq} {out : WaitNext} (h : Waiting out wq here next)
    (hparked : next.parkedOn side = true) : side = wq ∧ out = .wait .asleep := by
  cases h with
  | readBlocking | writeBlocking | readSpsc | writeSpsc =>
      cases out with
      | wait pc =>
          cases side <;> cases pc <;> cases hparked
          exact ⟨rfl, rfl⟩
      | woken | interrupted => cases side <;> cases hparked

theorem WaitMove.wake_effect {wq : Wq} {cond : Dev → Bool} {pc : WaitPc} {out : WaitNext}
    (hw : WaitMove wq cond me w pc w' out) (h : Waiting out wq here next)
    (hcond : cond w.dev = !w.dev.stuck wq) : WakeEffect side me w here w' next := by
  refine .quiet ?_ h.owesWake ?_ fun p hp hmem => hw.waiters_sub hp hmem
  · rw [hw.dev_eq]
    exact id
  · intro hnext
    obtain ⟨rfl, rfl⟩ := h.parkedOn hnext
    have hfalse := hw.asleep
    rw [hw.dev_eq] at hfalse ⊢
    simpa [hcond] using hfalse

theorem stuck_of_count_eq {dev other : Dev} (hm : dev.mode = .BLOCKING)
    (hm' : other.mode = .BLOCKING) (hc : other.count = dev.count)
    (hn : other.numBuffers = dev.numBuffers) (side : Wq) : other.stuck side = dev.stuck side := by
  cases side with
  | read => simp only [Dev.stuck, hm, hm', ringIsEmpty, hc]
  | write => simp only [Dev.stuck, hm, hm', ringIsFull, hc, hn]

theorem ReadMove.wake_effect {nonblock : Bool} {u : UserRead} {pc : ReadPc} {after : Next ReadPc}
    (hm : w.dev.mode = .BLOCKING) (hc : (Local.readBlocking nonblock u pc).Checked w.dev)
    (h : ReadMove nonblock u me w pc w' after) :
    WakeEffect side me w (.readBlocking nonblock u pc) w'
      (after.lift (.readBlocking nonblock u)) := by
  cases h with
  | lock | lockSignal | again | sleep | ready | unlockSleep =>
      cases side <;> exact .still rfl rfl rfl rfl
  | wait hw => exact hw.wake_effect (.readBlocking ..) (by simp [Dev.stuck, hm])
  | consume =>
      cases side with
      | read =>
          refine .quiet ?_ rfl (fun h => by cases h) fun p _ hp => ?_
          · have hne : ringIsEmpty w.dev = false := hc
            simp only [Dev.stuck, hm, hne]
            exact fun h => by cases h
          · rw [consumeStep_waiters] at hp
            exact hp
      | write =>
          rcases consumeStep_count w me u with ⟨hcount, -, -⟩ | ⟨out, -, -, hok⟩
          · refine .still ?_ rfl rfl (consumeStep_waiters ..)
            have hm' := (consumeStep_mode w me u).trans hm
            exact stuck_of_count_eq hm hm' hcount (consumeStep_numBuffers w me u) .write
          · exact .owes hok
  | unlockOk hok =>
      cases side with
      | read => exact .still rfl rfl rfl rfl
      | write => exact .owes rfl
  | unlockError hok =>
      cases side with
      | read => exact .still rfl rfl rfl rfl
      | write => exact .still rfl hok rfl rfl
  | wake =>
      cases side with
      | read => exact .still rfl rfl rfl rfl
      | write => exact .wakes rfl

theorem WriteMove.wake_effect {nonblock : Bool} {u : UserWrite} {pc : WritePc}
    {after : Next (UserWrite × WritePc)} (hm : w.dev.mode = .BLOCKING)
    (hc : (Local.writeBlocking nonblock u pc).Checked w.dev)
    (h : WriteMove nonblock u me w pc w' after) :
    WakeEffect side me w (.writeBlocking nonblock u pc) w'
      (after.lift fun (u, pc) => .writeBlocking nonblock u pc) := by
  cases h with
  | lock | lockSignal | clamp | again | sleep | ready | unlockSleep | relock | relockSignal =>
      cases side <;> exact .still rfl rfl rfl rfl
  | wait hw => exact hw.wake_effect (.writeBlocking ..) (by simp [Dev.stuck, hm])
  | produce =>
      cases side with
      | write =>
          refine .quiet ?_ rfl (fun h => by cases h) fun p _ hp => ?_
          · have hfull : ringIsFull w.dev = false := hc
            simp only [Dev.stuck, hm, hfull]
            exact fun h => by cases h
          · rw [produceStep_waiters] at hp
            exact hp
      | read =>
          rcases produceStep_count w me u with ⟨hcount, -, -⟩ | ⟨-, -, hok⟩
          · refine .still ?_ rfl rfl (produceStep_waiters ..)
            have hm' := (produceStep_mode w me u).trans hm
            exact stuck_of_count_eq hm hm' hcount (produceStep_numBuffers w me u) .read
          · exact .owes hok
  | unlockOk hok =>
      cases side with
      | read => exact .owes rfl
      | write => exact .still rfl rfl rfl rfl
  | unlockError hok =>
      cases side with
      | read => exact .still rfl hok rfl rfl
      | write => exact .still rfl rfl rfl rfl
  | wake =>
      cases side with
      | read => exact .wakes rfl
      | write => exact .still rfl rfl rfl rfl

-- The only reader of an SPSC ring is never asleep while it moves the index.
theorem SpscReadMove.wake_effect {nonblock : Bool} {u : UserRead} {pc : SpscReadPc}
    {after : Next SpscReadPc} (hm : w.dev.mode = .SPSC)
    (h : SpscReadMove nonblock u me w pc w' after) :
    WakeEffect side me w (.readSpsc nonblock u pc) w' (after.lift (.readSpsc nonblock u)) := by
  cases h with
  | empty | again | block | ready | sleep | consume | len | copyByte | copyFault | copyDone =>
      cases side <;> exact .still rfl rfl rfl rfl
  | wait hw => exact hw.wake_effect (.readSpsc ..) (by simp [Dev.stuck, hm])
  | publish | bytesLoad | bytesStore | msgsLoad | msgsStore | trace =>
      cases side with
      | read => exact .alone rfl rfl
      | write => exact .owes rfl
  | wake =>
      cases side with
      | read => exact .alone rfl rfl
      | write => exact .wakes rfl

theorem SpscWriteMove.wake_effect {nonblock : Bool} {u : UserWrite} {pc : SpscWritePc}
    {after : Next (UserWrite × SpscWritePc)} (hm : w.dev.mode = .SPSC)
    (h : SpscWriteMove nonblock u me w pc w' after) :
    WakeEffect side me w (.writeSpsc nonblock u pc) w'
      (after.lift fun (u, pc) => .writeSpsc nonblock u pc) := by
  cases h with
  | clamp | full | again | block | ready | sleep | produce | copyByte | copyFault | copyDone
  | setLen => cases side <;> exact .still rfl rfl rfl rfl
  | wait hw => exact hw.wake_effect (.writeSpsc ..) (by simp [Dev.stuck, hm])
  | publish | bytesLoad | bytesStore | msgsLoad | msgsStore | occ | peakHigher | peakKept
  | peakStore =>
      cases side with
      | read => exact .owes rfl
      | write => exact .alone rfl rfl
  | wake =>
      cases side with
      | read => exact .wakes rfl
      | write => exact .alone rfl rfl

-- A resize needs an empty ring, which is not full, and leaves it so.
theorem ResizeMove.wake_effect {rq : ResizeArg} {pc : ResizePc} {after : Next ResizePc}
    (hm : w.dev.mode = .BLOCKING) (hb : CountBounds w.dev) (h : ResizeMove rq me w pc w' after) :
    WakeEffect side me w (.resize rq pc) w' (after.lift (.resize rq)) := by
  cases h with
  | reject | accept | nomem | alloc | lock | busy | unlockBusy | freeNew | unlock | freeOld =>
      cases side <;> exact .still rfl rfl rfl rfl
  | swap ho =>
      cases side with
      | read =>
          refine .quiet (fun _ => ?_) rfl (fun h => by cases h) fun _ _ h => h
          simp [Dev.stuck, World.install, Dev.resized, hm, ringIsEmpty]
      | write =>
          have hn := hb.num_pos
          have hcount : toUnsigned w.dev.count = 0 := by simpa [occupancy, hm] using ho
          refine .quiet (fun hfull => ?_) rfl (fun h => by cases h) fun _ _ h => h
          simp only [Dev.stuck, hm, ringIsFull, hcount, decide_eq_true_eq] at hfull
          omega
  | wake =>
      cases side with
      | read => exact .still rfl rfl rfl rfl
      | write => exact .wakes rfl

variable {mode : Mode} {producer consumer : Nat}

theorem Move.wake_effect {choice : Choice} (hm : w.dev.mode = mode)
    (hcount : mode = .BLOCKING → CountBounds w.dev ∧ here.Checked w.dev)
    (hfix : here.InFixedMode mode producer consumer me)
    (h : Move me w choice here w' next) : WakeEffect side me w here w' next := by
  cases h with
  | @enter _ request hidle =>
      rcases hidle with rfl | ⟨ret, rfl⟩
      · cases side <;> cases request <;> exact .still rfl rfl rfl rfl
      · cases side <;> cases request <;> exact .still rfl rfl rfl rfl
  | readSampleSpsc | readSampleBlocking | writeSampleSpsc | writeSampleBlocking =>
      cases side <;> exact .still rfl rfl rfl rfl
  | readBlocking h => exact h.wake_effect (hm.trans hfix) (hcount hfix).2
  | writeBlocking h => exact h.wake_effect (hm.trans hfix) (hcount hfix).2
  | readSpsc h => exact h.wake_effect (hm.trans hfix.1)
  | writeSpsc h => exact h.wake_effect (hm.trans hfix.1)
  | resize h => exact h.wake_effect (hm.trans hfix) (hcount hfix).1
  | smode | reset | getstats | poll => exact hfix.elim

theorem Waiting.inFixedMode {wq : Wq} {out : WaitNext} (h : Waiting out wq here next)
    (hfix : here.InFixedMode mode producer consumer me) :
    next.InFixedMode mode producer consumer me := by
  cases h with
  | readBlocking | writeBlocking | readSpsc | writeSpsc =>
      cases out with
      | wait | woken => exact hfix
      | interrupted => trivial

theorem Move.fixed_mode {choice : Choice} (hm : w.dev.mode = mode)
    (hfix : here.InFixedMode mode producer consumer me)
    (hstart : ∀ request, choice = .start request → FixedMode mode producer consumer me request)
    (h : Move me w choice here w' next) :
    w'.dev.mode = mode ∧ next.InFixedMode mode producer consumer me := by
  cases h with
  | @enter _ request _ =>
      have hreq := hstart request rfl
      cases request <;> exact ⟨hm, hreq⟩
  | readSampleSpsc hs | writeSampleSpsc hs =>
      have hmode := hm.symm.trans hs
      exact ⟨hm, hmode, hfix hmode⟩
  | readSampleBlocking hs | writeSampleBlocking hs => exact ⟨hm, hm.symm.trans hs⟩
  | readBlocking h =>
      cases h with
      | wait hw => exact ⟨hw.dev_eq ▸ hm, Waiting.inFixedMode (.readBlocking ..) hfix⟩
      | consume => exact ⟨(consumeStep_mode ..).trans hm, hfix⟩
      | lock | again | sleep | ready | unlockSleep | unlockOk => exact ⟨hm, hfix⟩
      | lockSignal | unlockError | wake => exact ⟨hm, trivial⟩
  | writeBlocking h =>
      cases h with
      | wait hw => exact ⟨hw.dev_eq ▸ hm, Waiting.inFixedMode (.writeBlocking ..) hfix⟩
      | produce => exact ⟨(produceStep_mode ..).trans hm, hfix⟩
      | lock | clamp | again | sleep | ready | unlockSleep | relock | unlockOk =>
          exact ⟨hm, hfix⟩
      | lockSignal | relockSignal | unlockError | wake => exact ⟨hm, trivial⟩
  | readSpsc h =>
      cases h with
      | wait hw => exact ⟨hw.dev_eq ▸ hm, Waiting.inFixedMode (.readSpsc ..) hfix⟩
      | empty | block | ready | sleep | consume | len | copyByte | copyDone | publish | bytesLoad
      | bytesStore | msgsLoad | msgsStore | trace => exact ⟨hm, hfix⟩
      | again | copyFault | wake => exact ⟨hm, trivial⟩
  | writeSpsc h =>
      cases h with
      | wait hw => exact ⟨hw.dev_eq ▸ hm, Waiting.inFixedMode (.writeSpsc ..) hfix⟩
      | clamp | full | block | ready | sleep | produce | copyByte | copyDone | setLen | publish
      | bytesLoad | bytesStore | msgsLoad | msgsStore | occ | peakHigher | peakKept | peakStore =>
          exact ⟨hm, hfix⟩
      | again | copyFault | wake => exact ⟨hm, trivial⟩
  | resize h =>
      cases h with
      | accept | alloc | lock | busy | swap | unlockBusy | unlock | freeOld => exact ⟨hm, hfix⟩
      | reject | nomem | freeNew | wake => exact ⟨hm, trivial⟩
  | smode | reset | getstats | poll => exact hfix.elim

-- In SPSC mode each side has one process.
theorem eq_of_spscOn {p q : Nat} {other : Local}
    (hhere : here.InFixedMode mode producer consumer p) (hspsc : here.spscOn side = true)
    (hother : other.InFixedMode mode producer consumer q)
    (hparked : other.parkedOn side = true) : q = p := by
  unfold Local.spscOn at hspsc
  unfold Local.parkedOn at hparked
  split at hspsc
  · obtain ⟨rfl, rfl⟩ := hhere
    split at hparked <;> simp_all [Local.InFixedMode]
  · obtain ⟨rfl, rfl⟩ := hhere
    split at hparked <;> simp_all [Local.InFixedMode]
  · cases hspsc

end Steps

-- Whoever is parked while its side could go on is about to be woken.
structure WakeInv (mode : Mode) (producer consumer : Nat) (s : System) : Prop where
  count : mode = .BLOCKING → CountInv s
  mode_eq : s.shared.dev.mode = mode
  calls : ∀ p, (s.locals p).InFixedMode mode producer consumer p
  owed : ∀ side p, (s.locals p).parkedOn side = true → p ∈ s.shared.waiters side →
    s.shared.dev.stuck side = false → ∃ q, (s.locals q).owesWake side = true

section Runs

variable {mode : Mode} {producer consumer : Nat} {dev : Dev} {acts : List (Act Choice)}
  {s t : System}

theorem wakeInv_step {act : Act Choice} (hinv : WakeInv mode producer consumer s)
    (hok : Starting (FixedMode mode producer consumer) s act) (h : step driver s act = some t) :
    WakeInv mode producer consumer t := by
  have hcount := fun hm => countInv_step (hinv.count hm) h
  obtain ⟨w, next, hmove, rfl⟩ := step_move h
  have hme := hinv.calls act.pid
  obtain ⟨hmode, hnext⟩ := hmove.fixed_mode hinv.mode_eq hme hok
  have heffect (side : Wq) : WakeEffect side _ _ _ _ _ := hmove.wake_effect hinv.mode_eq
    (fun hm => ⟨(hinv.count hm).bounds, (hinv.count hm).checked act.pid⟩) hme
  refine ⟨hcount, hmode, ?_, fun side p hparked hwait hready => ?_⟩
  · exact State.forall_put
      (P := fun p (here : Local) => here.InFixedMode mode producer consumer p) hnext
      fun p _ => hinv.calls p
  · cases heffect side with
    | owes ho => exact ⟨act.pid, by rw [State.put_locals_self]; exact ho⟩
    | wakes hw =>
        rw [State.put_shared, hw] at hwait
        cases hwait
    | alone hspsc hquiet =>
        by_cases hp : p = act.pid
        · subst hp
          rw [State.put_locals_self, hquiet] at hparked
          cases hparked
        · rw [State.put_locals_of_ne _ _ hp] at hparked
          exact absurd (eq_of_spscOn hme hspsc (hinv.calls p) hparked) hp
    | quiet hstuck howes hasleep hwaiters =>
        rw [State.put_shared] at hwait hready
        by_cases hp : p = act.pid
        · subst hp
          rw [State.put_locals_self] at hparked
          rw [hasleep hparked] at hready
          cases hready
        · rw [State.put_locals_of_ne _ _ hp] at hparked
          have hbefore : s.shared.dev.stuck side = false :=
            Bool.eq_false_iff.mpr fun hs => by rw [hstuck hs] at hready; cases hready
          obtain ⟨q, hq⟩ := hinv.owed side p hparked (hwaiters p hp hwait) hbefore
          have hne : q ≠ act.pid := by
            rintro rfl
            rw [howes] at hq
            cases hq
          exact ⟨q, by rw [State.put_locals_of_ne _ _ hne]; exact hq⟩

theorem wakeInv_boot (h : Wellformed dev) :
    WakeInv dev.mode producer consumer (boot dev) where
  count hm := by
    have hr : BlockingRing dev := by simpa only [Discipline, hm] using h.discipline
    exact countInv_boot (hr.countBounds h.geometry)
  mode_eq := rfl
  calls _ := trivial
  owed side p hparked := by cases side <;> cases hparked

-- If somebody is parked on a wait queue although the ring would let it go on,
-- a process of the other side has still to issue its wakeup.
theorem no_lost_wakeup (hdev : Wellformed dev)
    (hreq : Along driver (Starting (FixedMode dev.mode producer consumer)) (boot dev) acts)
    (hrun : run driver (boot dev) acts = some s) {side : Wq} {p : Nat}
    (hparked : (s.locals p).parkedOn side = true) (hwait : p ∈ s.shared.waiters side)
    (hready : s.shared.dev.stuck side = false) :
    ∃ q, (s.locals q).owesWake side = true := by
  have hinv : WakeInv dev.mode producer consumer s :=
    run_invariant (fun _ _ _ hinv hok h => wakeInv_step hinv hok h) (wakeInv_boot hdev) hreq hrun
  exact hinv.owed side p hparked hwait hready

end Runs

-- A reader falls asleep on the empty ring, and a writer stops before its unlock.
def sleepyReader : List (Act Choice) :=
  ⟨1, .start (.read false ⟨4, 4⟩)⟩ :: proceed 1 7 ++
    ⟨0, .start (.write false ⟨[7], 1⟩)⟩ :: proceed 0 5

theorem sleepyReader_fixedMode :
    Along driver (Starting (FixedMode .BLOCKING 0 1)) (boot (emptyDev .BLOCKING 1 2))
      sleepyReader := by
  refine along_of_mem fun _ act hact request hr => ?_
  simp only [sleepyReader, proceed, List.cons_append, List.mem_cons, List.mem_append,
    List.mem_replicate] at hact
  rcases hact with rfl | ⟨-, rfl⟩ | rfl | ⟨-, rfl⟩
  · cases hr
    exact fun _ => rfl
  · cases hr
  · cases hr
    exact fun _ => rfl
  · cases hr

theorem no_lost_wakeup_sleepyReader :
    ∃ s, run driver (boot (emptyDev .BLOCKING 1 2)) sleepyReader = some s ∧
      (s.locals 1).parkedOn .read = true ∧ 1 ∈ s.shared.waiters .read ∧
      s.shared.dev.stuck .read = false ∧ ∃ q, (s.locals q).owesWake .read = true := by
  have hdev : Wellformed (emptyDev .BLOCKING 1 2) :=
    emptyDev_wellformed _ _ _ (by decide) (by decide) (by decide) (by decide) (by decide)
  obtain ⟨s, hrun, hend⟩ := Option.map_eq_some_iff.mp
    (show (run driver (boot (emptyDev .BLOCKING 1 2)) sleepyReader).map
      (fun s => ((s.locals 1).parkedOn .read, s.shared.waiters .read, s.shared.dev.stuck .read)) =
        some (true, [1], false) from rfl)
  obtain ⟨hparked, hrest⟩ := Prod.mk.inj hend
  obtain ⟨hwaiters, hready⟩ := Prod.mk.inj hrest
  have hwait : 1 ∈ s.shared.waiters .read := by simp [hwaiters]
  exact ⟨s, hrun, hparked, hwait, hready,
    no_lost_wakeup hdev sleepyReader_fixedMode hrun hparked hwait hready⟩

end Kbuf
