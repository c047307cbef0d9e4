import Kbuf.Atomic.Steps

namespace Kbuf

open Interleaving AtomicObject

-- The atomic device and its callers behind a state of the driver.
structure AtomicInv (s : System) (dev : Dev) (callers : Nat → CallState) : Prop where
  count : CountInv s
  own : OwnInv s
  mode : s.shared.dev.mode = .BLOCKING
  held : ∀ p, (s.locals p).holds = true → dev = (s.locals p).completes s.shared.dev
  free : s.shared.lock = none → dev = s.shared.dev
  calls : ∀ p, (s.locals p).At s.shared (callers p)

section Others

variable {w w' : World} {here : Local} {state : CallState}

-- A process that did not move is where it was in its call.
theorem Local.At.frame (hat : here.At w state) (hmode : w'.dev.mode = w.dev.mode)
    (harray : ∀ ptr, here.owned = some ptr → w'.array ptr = w.array ptr)
    (hsize : w'.dev.bufferSize = w.dev.bufferSize ∨ here.holds = false ∧ here.waits = false) :
    here.At w' state := by
  cases here with
  | writeBlocking nonblock v pc =>
      rcases hsize with hsize | ⟨hholds, hwaits⟩
      · unfold Local.At WritePc.At at hat ⊢
        rw [hsize]
        exact hat
      · cases pc with
        | clamp | loop | unlockSleep | produce | unlock => cases hholds
        | wait | relock => cases hwaits
        | lock | wake => exact hat
  | resize rq pc =>
      have hcheck := resizeCheck_of_mode hmode rq
      cases pc with
      | alloc => exact ⟨hat.1, hcheck.trans hat.2⟩
      | lock ptr | swap ptr =>
          refine ⟨hat.1, hcheck.trans hat.2.1, ?_⟩
          rw [harray ptr rfl]
          exact hat.2.2
      | check | unlockBusy | freeNew | unlock | freeOld | wake => exact hat
  | idle | readEntry | readBlocking | readSpsc | writeEntry | writeSpsc | smode | reset | getstats
  | poll | done => exact hat

end Others

section Step

variable {s t : System} {dev dev' : Dev} {callers : Nat → CallState} {act : Act Choice}

theorem AtomicInv.dev_mode (h : AtomicInv s dev callers) : dev.mode = .BLOCKING := by
  cases hlock : s.shared.lock with
  | none => rw [h.free hlock, h.mode]
  | some p => rw [h.held p ((h.count.lock p).mpr hlock), completes_mode, h.mode]

-- Only a RESIZE changes the buffer size, and it has the lock and has been checked.
theorem AtomicInv.others {w : World} {q : Nat} (hinv : AtomicInv s dev callers)
    (hok : ResizesUnwaited s act) (hframe : AtomicFrame s.shared (s.locals act.pid) w)
    (hq : q ≠ act.pid) : (s.locals q).At w (callers q) := by
  refine (hinv.calls q).frame hframe.mode (fun ptr hown => hframe.array ptr
    (hinv.own.owned_lt q ptr hown) (hinv.own.owned_ne q ptr hown)) ?_
  by_cases hsame : w.dev.bufferSize = s.shared.dev.bufferSize
  · exact Or.inl hsame
  · rcases hframe.size with hsize | ⟨rq, ptr, hhere, hempty, hsize⟩
    · exact absurd hsize hsame
    · right
      have hholds : (s.locals act.pid).holds = true := by rw [hhere]; rfl
      refine ⟨Bool.eq_false_iff.mpr fun h => hq (hinv.count.lock.eq_of_holds h hholds), ?_⟩
      exact hok rq ptr hhere hempty (hsize ▸ hsame) q

-- What a step has to show about the atomic device.
theorem AtomicInv.put {w : World} {next : Local} {state : CallState}
    (hinv : AtomicInv s dev callers) (hok : ResizesUnwaited s act)
    (hframe : AtomicFrame s.shared (s.locals act.pid) w)
    (h : step driver s act = some (s.put act.pid (w, next))) (hat : next.At w state)
    (hself : next.holds = true → dev' = next.completes w.dev)
    (hothers : ∀ p, p ≠ act.pid → (s.locals p).holds = true →
      dev' = (s.locals p).completes w.dev)
    (hfree : w.lock = none → dev' = w.dev) :
    AtomicInv (s.put act.pid (w, next)) dev' (Function.update callers act.pid state) where
  count := countInv_step hinv.count h
  own := ownInv_step hinv.own h
  mode := hframe.mode.trans hinv.mode
  held := State.forall_put
    (P := fun _ (here : Local) => here.holds = true → dev' = here.completes w.dev) hself hothers
  free := hfree
  calls p := by
    by_cases hp : p = act.pid
    · subst hp
      rw [State.put_locals_self, Function.update_self]
      exact hat
    · rw [State.put_locals_of_ne _ _ hp, Function.update_of_ne hp]
      exact hinv.others hok hframe hp

theorem driver_start_outside {me : Nat} {request : Request} {here : Local} {w : World}
    {after : World × Local} (h : driver me (.start request) here w = some after) :
    here = .idle ∨ ∃ ret, here = .done ret := by
  cases here with
  | idle => exact Or.inl rfl
  | done ret => exact Or.inr ⟨ret, rfl⟩
  | readEntry | writeEntry => cases h
  | readBlocking _ _ pc | writeBlocking _ _ pc | readSpsc _ _ pc | writeSpsc _ _ pc =>
      cases pc with
      | wait pc => cases pc <;> cases h
      | _ => cases h
  | resize _ pc | smode _ pc | reset pc | getstats _ pc | poll pc => cases pc <;> cases h

theorem enter_at {request : Request} {w : World} {p : Nat} (h : StaysBlocking p request) :
    request.enter.At w (.called request) := by
  cases request with
  | smode => exact ⟨rfl, h⟩
  | read | write | resize | reset | getstats | poll => rfl

theorem atomicInv_start {request : Request} (hinv : AtomicInv s dev callers)
    (hstart : StaysBlocking act.pid request) (hok : ResizesUnwaited s act)
    (hchoice : act.choice = .start request) (h : step driver s act = some t) :
    ∃ next, Answers kbufObject act.pid dev (callers act.pid) dev next
        (some (.call act.pid request)) ∧
      AtomicInv t dev (Function.update callers act.pid next) := by
  obtain ⟨⟨w, next⟩, hdriver, rfl⟩ := step_eq_some h
  have hmove := driver_move hdriver
  rw [hchoice] at hdriver
  have hidle := driver_start_outside hdriver
  obtain ⟨rfl, rfl⟩ := driver_start hdriver
  have hat := hinv.calls act.pid
  have hframe := hmove.atomic_frame hinv.mode hinv.own.slotsPtr_lt hat
  have hholds : request.enter.holds = false := by cases request <;> rfl
  refine ⟨.called request, .call request ?_, hinv.put hok hframe h (enter_at hstart) ?_ ?_ ?_⟩
  · rcases hidle with hidle | ⟨ret, hidle⟩
    · rw [hidle] at hat
      exact Or.inl hat
    · rw [hidle] at hat
      exact Or.inr ⟨ret, hat⟩
  · intro hn
    rw [hholds] at hn
    cases hn
  · intro p _ hp
    exact hinv.held p hp
  · exact hinv.free

theorem atomicInv_go (hinv : AtomicInv s dev callers) (hok : ResizesUnwaited s act)
    (hchoice : ∀ request, act.choice ≠ .start request) (h : step driver s act = some t) :
    ∃ dev' next, Answers kbufObject act.pid dev (callers act.pid) dev' next
        ((t.locals act.pid).returns act.pid) ∧
      AtomicInv t dev' (Function.update callers act.pid next) := by
  obtain ⟨w, next, hmove, rfl⟩ := step_move h
  rw [State.put_locals_self]
  have hlt := hinv.own.slotsPtr_lt
  have hat := hinv.calls act.pid
  have hframe := hmove.atomic_frame hinv.mode hlt hat
  have hlock := lockInv_step hinv.count.lock h
  have hself := hlock act.pid
  rw [State.put_locals_self] at hself
  cases hmove.atomic_step hinv.mode hlt (hinv.count.checked act.pid) hat hchoice with
  | @inside state' hholds hanswer hat' =>
      have hdev : dev = (s.locals act.pid).completes s.shared.dev := by
        cases hhere : (s.locals act.pid).holds with
        | true => exact hinv.held act.pid hhere
        | false =>
            rw [completes_of_not_holds _ hhere]
            have hnext : next.holds = true := by simpa [hhere] using hholds
            cases hmove.lock_effect with
            | acquire hfree => exact hinv.free hfree
            | release hh => rw [hhere] at hh; cases hh
            | keep _ hn => rw [hhere, hnext] at hn; cases hn
      rw [← hdev] at hanswer
      refine ⟨_, state', hanswer, hinv.put hok hframe h hat' (fun _ => rfl) ?_ ?_⟩
      · intro p hp hheld
        exfalso
        rcases hholds with hhere | hnext
        · exact hp (hinv.count.lock.eq_of_holds hheld hhere)
        · have hp' := hlock p
          rw [State.put_locals_of_ne _ _ hp] at hp'
          exact hp (Option.some.inj ((hp'.mp hheld).symm.trans (hself.mp hnext)))
      · intro hfree
        refine completes_of_not_holds _ (Bool.eq_false_iff.mpr fun hn => ?_)
        have hlocked := hself.mp hn
        rw [State.put_shared, hfree] at hlocked
        cases hlocked
  | outside hdev hhere hnext hanswer =>
      obtain ⟨state', hanswer, hat'⟩ := hanswer dev hinv.dev_mode
      refine ⟨dev, state', hanswer, hinv.put hok hframe h hat' ?_ ?_ ?_⟩
      · intro hn
        rw [hnext] at hn
        cases hn
      · intro p _ hp
        rw [hdev]
        exact hinv.held p hp
      · intro hfree
        rw [hdev]
        cases hmove.lock_effect with
        | acquire _ _ hn => rw [hnext] at hn; cases hn
        | release hh => rw [hhere] at hh; cases hh
        | keep hl => exact hinv.free (hl.symm.trans hfree)

theorem atomicInv_step (hinv : AtomicInv s dev callers)
    (hok : Starting StaysBlocking s act ∧ ResizesUnwaited s act)
    (h : step driver s act = some t) :
    ∃ dev' next, Answers kbufObject act.pid dev (callers act.pid) dev' next
        (shown act (t.locals act.pid)) ∧
      AtomicInv t dev' (Function.update callers act.pid next) := by
  unfold shown
  cases hchoice : act.choice with
  | start request => exact ⟨dev, atomicInv_start hinv (hok.1 request hchoice) hok.2 hchoice h⟩
  | go | signal | spurious =>
      refine atomicInv_go hinv hok.2 (fun request hr => ?_) h
      rw [hchoice] at hr
      cases hr

theorem atomicInv_boot (hdev : Wellformed dev) (hmode : dev.mode = .BLOCKING) :
    AtomicInv (boot dev) dev fun _ => .idle where
  count := countInv_boot (BlockingRing.countBounds hdev.geometry
    (by simpa only [Discipline, hmode] using hdev.discipline))
  own := ownInv_boot dev
  mode := hmode
  held p hp := by cases hp
  free _ := rfl
  calls _ := rfl

end Step

-- In blocking mode every call of every process, RESIZE, SMODE, RESET, GETSTATS and poll
-- among them, might have happened in one instant between its entry and its return, with
-- the effect and the result it has on a device that nobody else is in.
theorem blocking_atomic {dev : Dev} {acts : List (Act Choice)} {s : System}
    (hdev : Wellformed dev) (hmode : dev.mode = .BLOCKING)
    (hok : Along driver (fun s act => Starting StaysBlocking s act ∧ ResizesUnwaited s act)
      (boot dev) acts)
    (hrun : run driver (boot dev) acts = some s) :
    ∃ final, Linearizable kbufObject dev (trace driver shown (boot dev) acts) final ∧
      (s.shared.lock = none → final = s.shared.dev) := by
  obtain ⟨final, callers, hlin, hinv⟩ := linearizable_of_answers
    (fun _ _ _ _ _ hinv hok h => atomicInv_step hinv hok h) (atomicInv_boot hdev hmode) hok hrun
  exact ⟨final, hlin, hinv.free⟩

-- While a read sleeps, the ring is resized from one buffer of two bytes to two of four. A
-- write enters before the RESIZE returns, and a RESET gets the lock before the write does.
def resizedUnderSleeper : List (Act Choice) :=
  ⟨1, .start (.read false ⟨4, 4⟩)⟩ :: proceed 1 7 ++
    ⟨3, .start (.resize ⟨false, 2, 4, fun _ => true⟩)⟩ :: proceed 3 4 ++
    ⟨0, .start (.write false ⟨[7, 8, 9], 3⟩)⟩ :: proceed 0 1 ++
    ⟨2, .start .reset⟩ :: proceed 3 3 ++ proceed 2 5 ++ proceed 2 4 ++ proceed 0 6 ++
    proceed 1 8

theorem blocking_atomic_resizedUnderSleeper :
    ∃ s, run driver (boot (emptyDev .BLOCKING 1 2)) resizedUnderSleeper = some s ∧
      s.locals 1 = .done (.bytes (.ok 3) [7, 8, 9]) ∧ s.shared.dev.readSleeps = 0 ∧
      Linearizable kbufObject (emptyDev .BLOCKING 1 2)
        (trace driver shown (boot (emptyDev .BLOCKING 1 2)) resizedUnderSleeper)
        s.shared.dev := by
  have hdev : Wellformed (emptyDev .BLOCKING 1 2) :=
    emptyDev_wellformed _ _ _ (by decide) (by decide) (by decide) (by decide) (by decide)
  obtain ⟨s, hrun, hend⟩ := Option.map_eq_some_iff.mp
    (show (run driver (boot (emptyDev .BLOCKING 1 2)) resizedUnderSleeper).map
      (fun s => (s.locals 1, s.shared.dev.readSleeps, s.shared.lock)) =
        some (.done (.bytes (.ok 3) [7, 8, 9]), 0, none) from rfl)
  obtain ⟨hdone, hrest⟩ := Prod.mk.inj hend
  obtain ⟨hsleeps, hlock⟩ := Prod.mk.inj hrest
  have hstart : Along driver (Starting StaysBlocking) (boot (emptyDev .BLOCKING 1 2))
      resizedUnderSleeper := by
    refine along_of_mem fun _ act hact => ?_
    simp only [resizedUnderSleeper, proceed, List.cons_append, List.append_assoc, List.mem_cons,
      List.mem_append, List.mem_replicate] at hact
    intro request hr
    rcases hact with rfl | ⟨-, rfl⟩ | rfl | ⟨-, rfl⟩ | rfl | ⟨-, rfl⟩ | rfl | ⟨-, rfl⟩ |
      ⟨-, rfl⟩ | ⟨-, rfl⟩ | ⟨-, rfl⟩ | ⟨-, rfl⟩ <;> cases hr <;> trivial
  have hresize : Along driver ResizesUnwaited (boot (emptyDev .BLOCKING 1 2))
      resizedUnderSleeper :=
    along_of_checkAlong (fun _ _ => resizesUnwaited_of_upTo) (fun _ _ => rfl) (by decide)
      (show checkAlong driver (resizesUnwaitedUpTo 4) _ _ = true from rfl)
  obtain ⟨final, hlin, hfinal⟩ := blocking_atomic hdev rfl (hstart.and hresize) hrun
  rw [hfinal hlock] at hlin
  exact ⟨s, hrun, hdone, hsleeps, hlin⟩

end Kbuf
