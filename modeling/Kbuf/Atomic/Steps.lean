import Kbuf.Atomic.Model

namespace Kbuf

open Interleaving AtomicObject

variable {dev : Dev} {nonblock : Bool}

section Calls

theorem apply_read_again (hm : dev.mode = .BLOCKING) (he : ringIsEmpty dev = true) (u : UserRead) :
    kbufObject.apply dev (.read true u) = some (dev, .bytes (.error .EAGAIN) []) := by
  simp [kbufObject, Request.mustWait, Request.sleepsOn, Request.call, exec, kbufRead, hm, he]

theorem stall_read (hm : dev.mode = .BLOCKING) (he : ringIsEmpty dev = true) (u : UserRead) :
    kbufObject.stall dev (.read false u) = some (dev.countSleep .read) := by
  simp [kbufObject, Request.mustWait, Request.sleepsOn, Dev.stuck, hm, he]

theorem apply_read (hm : dev.mode = .BLOCKING) (he : ringIsEmpty dev = false) (u : UserRead) :
    kbufObject.apply dev (.read nonblock u) =
      some ((ringConsume dev u).1, .bytes (ringConsume dev u).2.1 (ringConsume dev u).2.2) := by
  cases nonblock <;> simp [kbufObject, Request.mustWait, Request.sleepsOn, Request.call, exec,
    kbufRead, Dev.stuck, hm, he]

theorem apply_write_again (hm : dev.mode = .BLOCKING) (he : ringIsFull dev = true)
    (u : UserWrite) :
    kbufObject.apply dev (.write true u) = some (dev, .size (.error .EAGAIN)) := by
  simp [kbufObject, Request.mustWait, Request.sleepsOn, Request.call, exec, kbufWrite, hm, he]

theorem stall_write (hm : dev.mode = .BLOCKING) (he : ringIsFull dev = true) (u : UserWrite) :
    kbufObject.stall dev (.write false u) = some (dev.countSleep .write) := by
  simp [kbufObject, Request.mustWait, Request.sleepsOn, Dev.stuck, hm, he]

theorem apply_write (hm : dev.mode = .BLOCKING) (he : ringIsFull dev = false) (u : UserWrite) :
    kbufObject.apply dev (.write nonblock u) =
      some ((ringProduce dev (u.clamp dev.bufferSize)).1,
        .size (ringProduce dev (u.clamp dev.bufferSize)).2) := by
  cases nonblock <;> simp [kbufObject, Request.mustWait, Request.sleepsOn, Request.call, exec,
    kbufWrite, Dev.stuck, hm, he]

theorem apply_resize (dev : Dev) (rq : ResizeArg) :
    kbufObject.apply dev (.resize rq) =
      some ((iocResize dev rq).1, .status (iocResize dev rq).2) := rfl

theorem apply_smode (dev : Dev) (arg : SmodeArg) :
    kbufObject.apply dev (.smode arg) = some ((iocSmode dev arg).1, .status (iocSmode dev arg).2) :=
  rfl

theorem apply_poll (hm : dev.mode = .BLOCKING) :
    kbufObject.apply dev .poll =
      some (dev, .mask (pollMask (ringIsEmpty dev) (ringIsFull dev))) := by
  simp [kbufObject, Request.mustWait, Request.sleepsOn, Request.call, exec, kbufPoll, hm]

-- The checks of kbuf_ioc_resize read nothing of the device but its mode.
theorem resizeCheck_of_mode {other : Dev} (h : other.mode = dev.mode) (rq : ResizeArg) :
    resizeCheck other rq = resizeCheck dev rq := by
  unfold resizeCheck
  rw [h]

theorem blocking_of_smodeCheck {arg : SmodeArg} {mode : Mode}
    (hne : Mode.ofInt arg.mode ≠ some .SPSC) (h : smodeCheck arg = .ok mode) :
    mode = .BLOCKING := by
  unfold smodeCheck at h
  split at h
  · cases h
  · split at h
    · cases h
    · rename_i mode' hmode
      obtain rfl := Except.ok.inj h
      rw [hmode] at hne
      cases mode' with
      | BLOCKING => rfl
      | SPSC => exact absurd rfl hne

end Calls

-- A step of one process, as the atomic device sees it. With the lock it works on the
-- device that its holder will leave; without, on whatever device the holder leaves.
inductive AtomicStep (me : Nat) (w : World) (here : Local) (state : CallState) (w' : World)
    (next : Local) : Prop
  | inside {state' : CallState} (hholds : here.holds = true ∨ next.holds = true)
      (hanswer : Answers kbufObject me (here.completes w.dev) state (next.completes w'.dev) state'
        (next.returns me))
      (hat : next.At w' state')
  | outside (hdev : w'.dev = w.dev) (hhere : here.holds = false) (hnext : next.holds = false)
      (h : ∀ dev : Dev, dev.mode = .BLOCKING → ∃ state',
        Answers kbufObject me dev state dev state' (next.returns me) ∧ next.At w' state')

section Steps

variable {me : Nat} {w w' : World} {state : CallState}

theorem ReadMove.atomic_step {u : UserRead} {pc : ReadPc} {after : Next ReadPc}
    (hm : w.dev.mode = .BLOCKING) (hc : (Local.readBlocking nonblock u pc).Checked w.dev)
    (hat : pc.At nonblock u state) (h : ReadMove nonblock u me w pc w' after) :
    AtomicStep me w (.readBlocking nonblock u pc) state w'
      (after.lift (.readBlocking nonblock u)) := by
  cases h with
  | lock => exact .inside (Or.inr rfl) .stay hat
  | ready | unlockSleep | unlockOk => exact .inside (Or.inl rfl) .stay hat
  | lockSignal =>
      obtain rfl := hat
      exact .outside rfl rfl rfl fun _ _ => ⟨_, .abortRet rfl, rfl⟩
  | again he hn =>
      subst hn
      obtain rfl := hat
      exact .inside (Or.inl rfl) (.apply (apply_read_again hm he u)) rfl
  | sleep he hn =>
      subst hn
      obtain rfl := hat
      exact .inside (Or.inl rfl) (.stall (stall_read hm he u)) rfl
  | @wait _ _ out hw =>
      obtain rfl := hat
      cases out with
      | wait => exact .outside hw.dev_eq rfl rfl fun _ _ => ⟨_, .stay, rfl⟩
      | woken => exact .outside hw.dev_eq rfl rfl fun _ _ => ⟨_, .stay, rfl⟩
      | interrupted => exact .outside hw.dev_eq rfl rfl fun _ _ => ⟨_, .abortRet rfl, rfl⟩
  | consume =>
      obtain rfl := hat
      obtain ⟨log, hw⟩ := consumeStep_world w me u
      rw [consumeStep_ret, hw]
      exact .inside (Or.inl rfl) (.apply (apply_read hm hc u)) rfl
  | unlockError =>
      obtain rfl := hat
      exact .inside (Or.inl rfl) .ret rfl
  | wake =>
      obtain rfl := hat
      exact .outside rfl rfl rfl fun _ _ => ⟨_, .ret, rfl⟩

theorem WriteMove.atomic_step {v : UserWrite} {pc : WritePc} {after : Next (UserWrite × WritePc)}
    (hm : w.dev.mode = .BLOCKING) (hc : (Local.writeBlocking nonblock v pc).Checked w.dev)
    (hat : pc.At w.dev nonblock v state) (h : WriteMove nonblock v me w pc w' after) :
    AtomicStep me w (.writeBlocking nonblock v pc) state w'
      (after.lift fun (u, pc) => .writeBlocking nonblock u pc) := by
  cases h with
  | lock | relock => exact .inside (Or.inr rfl) .stay hat
  | ready | unlockSleep | unlockOk => exact .inside (Or.inl rfl) .stay hat
  | lockSignal =>
      obtain rfl := hat
      exact .outside rfl rfl rfl fun _ _ => ⟨_, .abortRet rfl, rfl⟩
  | relockSignal =>
      obtain ⟨u, rfl, -⟩ := hat
      exact .outside rfl rfl rfl fun _ _ => ⟨_, .abortRet rfl, rfl⟩
  | clamp => exact .inside (Or.inl rfl) .stay ⟨v, hat, rfl⟩
  | again he hn =>
      subst hn
      obtain ⟨u, rfl, -⟩ := hat
      exact .inside (Or.inl rfl) (.apply (apply_write_again hm he u)) rfl
  | sleep he hn =>
      subst hn
      obtain ⟨u, rfl, hv⟩ := hat
      exact .inside (Or.inl rfl) (.stall (stall_write hm he u)) ⟨u, rfl, hv⟩
  | @wait _ _ out hw =>
      rw [← hw.dev_eq] at hat
      cases out with
      | wait => exact .outside hw.dev_eq rfl rfl fun _ _ => ⟨_, .stay, hat⟩
      | woken => exact .outside hw.dev_eq rfl rfl fun _ _ => ⟨_, .stay, hat⟩
      | interrupted =>
          obtain ⟨u, rfl, -⟩ := hat
          exact .outside hw.dev_eq rfl rfl fun _ _ => ⟨_, .abortRet rfl, rfl⟩
  | produce =>
      obtain ⟨u, rfl, rfl⟩ := hat
      obtain ⟨log, hw⟩ := produceStep_world w me (u.clamp w.dev.bufferSize)
      rw [produceStep_ret, hw]
      exact .inside (Or.inl rfl) (.apply (apply_write hm hc u)) rfl
  | unlockError =>
      obtain rfl := hat
      exact .inside (Or.inl rfl) .ret rfl
  | wake =>
      obtain rfl := hat
      exact .outside rfl rfl rfl fun _ _ => ⟨_, .ret, rfl⟩

theorem ResizeMove.atomic_step {rq : ResizeArg} {pc : ResizePc} {after : Next ResizePc}
    (hm : w.dev.mode = .BLOCKING) (hlt : w.slotsPtr < w.nextPtr) (hat : pc.At w rq state)
    (h : ResizeMove rq me w pc w' after) :
    AtomicStep me w (.resize rq pc) state w' (after.lift (.resize rq)) := by
  cases h with
  | @reject e he =>
      obtain rfl := hat
      refine .outside rfl rfl rfl fun dev hdev => ⟨_, .applyRet ?_, rfl⟩
      rw [apply_resize, iocResize, resizeCheck_of_mode (hdev.trans hm.symm), he]
  | accept hok => exact .outside rfl rfl rfl fun _ _ => ⟨_, .stay, hat, hok⟩
  | nomem hn =>
      obtain ⟨rfl, hok⟩ := hat
      refine .outside rfl rfl rfl fun dev hdev => ⟨_, .applyRet ?_, rfl⟩
      rw [apply_resize, iocResize, resizeCheck_of_mode (hdev.trans hm.symm), hok, hn]
  | @alloc slots hs =>
      refine .outside rfl rfl rfl fun _ _ => ⟨_, .stay, hat.1, hat.2, ?_⟩
      rw [array_alloc _ _ hlt, if_pos rfl, hs]
  | lock => exact .inside (Or.inr rfl) .stay hat
  | busy ho =>
      obtain ⟨rfl, hok, hs⟩ := hat
      have happly : kbufObject.apply w.dev (.resize rq) =
          some (w.dev, .status (.error .EBUSY)) := by
        simp only [apply_resize, iocResize, hok, hs, resizeSwap, if_pos ho]
      exact .inside (Or.inl rfl) (.apply happly) rfl
  | @swap ptr ho =>
      obtain ⟨rfl, hok, hs⟩ := hat
      have happly : kbufObject.apply w.dev (.resize rq) =
          some (w.dev.resized rq (w.array ptr), .status (.ok ())) := by
        simp only [apply_resize, iocResize, hok, hs, resizeSwap, if_neg (not_not.mpr ho)]
      exact .inside (Or.inl rfl) (.apply happly) rfl
  | unlockBusy | unlock => exact .inside (Or.inl rfl) .stay hat
  | freeOld => exact .outside rfl rfl rfl fun _ _ => ⟨_, .stay, hat⟩
  | freeNew | wake =>
      obtain rfl := hat
      exact .outside rfl rfl rfl fun _ _ => ⟨_, .ret, rfl⟩

theorem SmodeMove.atomic_step {arg : SmodeArg} {pc : SmodePc} {after : Next SmodePc}
    (hat : pc.At arg state) (h : SmodeMove arg me w pc w' after) :
    AtomicStep me w (.smode arg pc) state w' (after.lift (.smode arg)) := by
  cases h with
  | reject he =>
      obtain ⟨rfl, -⟩ := hat
      refine .outside rfl rfl rfl fun dev _ => ⟨_, .applyRet ?_, rfl⟩
      rw [apply_smode, iocSmode, he]
  | @accept mode hok =>
      obtain ⟨rfl, hne⟩ := hat
      refine .outside rfl rfl rfl fun _ _ => ⟨_, .stay, rfl, hok, ?_⟩
      exact blocking_of_smodeCheck hne hok
  | lock => exact .inside (Or.inr rfl) .stay hat
  | @refuse mode e he =>
      obtain ⟨rfl, hok, -⟩ := hat
      have happly : kbufObject.apply w.dev (.smode arg) = some (w.dev, .status (.error e)) := by
        rw [apply_smode, iocSmode, hok]
        simp only [he]
      exact .inside (Or.inl rfl) (.apply happly) rfl
  | switch ho hp =>
      obtain ⟨rfl, hok, rfl⟩ := hat
      have happly : kbufObject.apply w.dev (.smode arg) =
          some (w.dev.switched .BLOCKING, .status (.ok ())) := by
        simp [apply_smode, iocSmode, hok, smodeSwitch, ho]
      exact .inside (Or.inl rfl) (.apply happly) rfl
  | unlock =>
      obtain rfl := hat
      exact .inside (Or.inl rfl) .ret rfl

theorem ResetMove.atomic_step {pc : ResetPc} {after : Next ResetPc} (hat : pc.At state)
    (h : ResetMove me w pc w' after) :
    AtomicStep me w (.reset pc) state w' (after.lift .reset) := by
  cases h with
  | lock =>
      obtain rfl := hat
      have happly : kbufObject.apply w.dev .reset =
          some (resetRest w.dev 0, .status (.ok ())) := by
        rw [resetRest_zero]
        rfl
      exact .inside (Or.inr rfl) (.apply happly) ⟨rfl, Nat.zero_le 6⟩
  | @store field =>
      obtain ⟨rfl, hfield⟩ := hat
      have hrest := resetRest_step w.dev hfield
      by_cases hlt : field < 6
      · rw [if_pos hlt]
        refine .inside (Or.inl rfl) ?_ ⟨rfl, hlt⟩
        simp only [Local.completes, Next.lift, hrest]
        exact .stay
      · obtain rfl : field = 6 := by omega
        rw [if_neg hlt]
        refine .inside (Or.inl rfl) ?_ rfl
        simp only [Local.completes, Next.lift, hrest]
        exact .stay
  | unlock =>
      obtain rfl := hat
      exact .inside (Or.inl rfl) .ret rfl

theorem GetstatsMove.atomic_step {fault : Bool} {pc : GetstatsPc} {after : Next GetstatsPc}
    (hm : w.dev.mode = .BLOCKING) (hat : pc.At fault state)
    (h : GetstatsMove fault me w pc w' after) :
    AtomicStep me w (.getstats fault pc) state w' (after.lift (.getstats fault)) := by
  cases h with
  | lock => exact .inside (Or.inr rfl) .stay hat
  | loadSpsc hs => rw [hm] at hs; cases hs
  | loadBlocking =>
      obtain rfl := hat
      exact .inside (Or.inl rfl) (.apply rfl) rfl
  | occ => exact hat.elim
  | unlock =>
      obtain rfl := hat
      exact .inside (Or.inl rfl) .ret rfl

theorem PollMove.atomic_step {pc : PollPc} {after : Next PollPc} (hm : w.dev.mode = .BLOCKING)
    (hat : pc.At state) (h : PollMove me w pc w' after) :
    AtomicStep me w (.poll pc) state w' (after.lift .poll) := by
  cases h with
  | sampleSpsc hs => rw [hm] at hs; cases hs
  | sampleBlocking => exact .outside rfl rfl rfl fun _ _ => ⟨_, .stay, hat⟩
  | spscFull => exact hat.elim
  | lock => exact .inside (Or.inr rfl) .stay hat
  | test =>
      obtain rfl := hat
      exact .inside (Or.inl rfl) (.apply (apply_poll hm)) rfl
  | unlock =>
      obtain rfl := hat
      exact .inside (Or.inl rfl) .ret rfl

-- Every step but the entry is the process's own progress through its call.
theorem Move.atomic_step {choice : Choice} {here next : Local} (hm : w.dev.mode = .BLOCKING)
    (hlt : w.slotsPtr < w.nextPtr) (hc : here.Checked w.dev) (hat : here.At w state)
    (hstart : ∀ request, choice ≠ .start request) (h : Move me w choice here w' next) :
    AtomicStep me w here state w' next := by
  cases h with
  | @enter _ request _ => exact absurd rfl (hstart request)
  | readSampleSpsc hs | writeSampleSpsc hs => rw [hm] at hs; cases hs
  | readSampleBlocking | writeSampleBlocking =>
      exact .outside rfl rfl rfl fun _ _ => ⟨_, .stay, hat⟩
  | readBlocking h => exact h.atomic_step hm hc hat
  | writeBlocking h => exact h.atomic_step hm hc hat
  | readSpsc | writeSpsc => exact hat.elim
  | resize h => exact h.atomic_step hm hlt hat
  | smode h => exact h.atomic_step hat
  | reset h => exact h.atomic_step hat
  | getstats h => exact h.atomic_step hm hat
  | poll h => exact h.atomic_step hm hat

end Steps

section Frame

variable {me : Nat} {w w' : World} {state : CallState}

-- What the others keep during a step: the mode, the arrays that are not the device's, and
-- the buffer size unless a RESIZE takes effect.
structure AtomicFrame (w : World) (here : Local) (w' : World) : Prop where
  mode : w'.dev.mode = w.dev.mode
  array : ∀ ptr, ptr < w.nextPtr → ptr ≠ w.slotsPtr → w'.array ptr = w.array ptr
  size : w'.dev.bufferSize = w.dev.bufferSize ∨ ∃ rq ptr, here = .resize rq (.swap ptr) ∧
    occupancy w.dev = 0 ∧ w'.dev.bufferSize = rq.bufferSize

theorem SameLayout.atomic_frame {here : Local} (h : SameLayout w w')
    (hm : w'.dev.mode = w.dev.mode) : AtomicFrame w here w' :=
  ⟨hm, fun ptr _ _ => h.array ptr, Or.inl h.bufferSize⟩

theorem produceStep_atomic_frame (w : World) (me : Nat) (u : UserWrite) {here : Local} :
    AtomicFrame w here (produceStep w me u).1 := by
  refine ⟨produceStep_mode .., fun ptr _ hne => ?_, Or.inl (produceStep_bufferSize ..)⟩
  obtain ⟨log, hw⟩ := produceStep_world w me u
  rw [hw, World.array, World.array, if_neg hne, if_neg hne]

theorem Move.atomic_frame {choice : Choice} {here next : Local} (hm : w.dev.mode = .BLOCKING)
    (hlt : w.slotsPtr < w.nextPtr) (hat : here.At w state) (h : Move me w choice here w' next) :
    AtomicFrame w here w' := by
  have hsame : SameLayout w w := ⟨rfl, rfl, rfl, rfl, rfl, rfl⟩
  cases h with
  | enter | readSampleSpsc | readSampleBlocking | writeSampleSpsc | writeSampleBlocking =>
      exact hsame.atomic_frame rfl
  | readSpsc | writeSpsc => exact hat.elim
  | readBlocking h =>
      cases h with
      | wait hw => exact hw.sameLayout.atomic_frame (by rw [hw.dev_eq])
      | consume => exact (consumeStep_sameLayout ..).atomic_frame (consumeStep_mode ..)
      | lock | lockSignal | again | sleep | ready | unlockSleep | unlockOk | unlockError | wake =>
          exact SameLayout.atomic_frame ⟨rfl, rfl, rfl, rfl, rfl, rfl⟩ rfl
  | writeBlocking h =>
      cases h with
      | wait hw => exact hw.sameLayout.atomic_frame (by rw [hw.dev_eq])
      | produce => exact produceStep_atomic_frame ..
      | lock | lockSignal | clamp | again | sleep | ready | unlockSleep | relock | relockSignal
      | unlockOk | unlockError | wake =>
          exact SameLayout.atomic_frame ⟨rfl, rfl, rfl, rfl, rfl, rfl⟩ rfl
  | resize h =>
      cases h with
      | alloc =>
          refine ⟨rfl, fun ptr hp _ => ?_, Or.inl rfl⟩
          rw [array_alloc _ _ hlt, if_neg (Nat.ne_of_lt hp)]
      | swap ho =>
          exact ⟨rfl, fun ptr _ _ => array_install _ _ _ ptr rfl, Or.inr ⟨_, _, rfl, ho, rfl⟩⟩
      | reject | accept | nomem | lock | busy | unlockBusy | freeNew | unlock | freeOld | wake =>
          exact SameLayout.atomic_frame ⟨rfl, rfl, rfl, rfl, rfl, rfl⟩ rfl
  | smode h =>
      cases h with
      | switch =>
          obtain ⟨-, -, rfl⟩ := hat
          exact SameLayout.atomic_frame ⟨rfl, rfl, rfl, rfl, rfl, rfl⟩ hm.symm
      | reject | accept | lock | refuse | unlock =>
          exact SameLayout.atomic_frame ⟨rfl, rfl, rfl, rfl, rfl, rfl⟩ rfl
  | reset h =>
      cases h with
      | store => exact (resetStore_sameLayout ..).atomic_frame (resetStore_mode ..)
      | lock | unlock => exact SameLayout.atomic_frame ⟨rfl, rfl, rfl, rfl, rfl, rfl⟩ rfl
  | getstats h => cases h <;> exact SameLayout.atomic_frame ⟨rfl, rfl, rfl, rfl, rfl, rfl⟩ rfl
  | poll h => cases h <;> exact SameLayout.atomic_frame ⟨rfl, rfl, rfl, rfl, rfl, rfl⟩ rfl

end Frame

end Kbuf
