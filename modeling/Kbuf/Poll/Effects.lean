import Kbuf.Atomic.Steps
import Kbuf.Poll.Model
import Kbuf.Spsc.Delivery

namespace Kbuf

open Interleaving FreeRunning

section Definitions

-- What a poller has concluded, or is about to conclude from an index it has loaded, about
-- one side of the ring.
def PollerPc.Believes (dev : Dev) : Wq → PollerPc → Prop
  | .read, .emptyCons prod => dev.mode = .SPSC → dev.prodIdx = prod
  | .read, .full isEmpty => isEmpty = true → dev.stuck .read = true
  | .read, .fullCons isEmpty _ => isEmpty = true → dev.stuck .read = true
  | .read, .unlock isEmpty _ => isEmpty = true → dev.stuck .read = true
  | .read, .check isEmpty _ => isEmpty = true → dev.stuck .read = true
  | .read, .asleep isEmpty _ => isEmpty = true → dev.stuck .read = true
  | .write, .fullCons _ prod =>
      dev.mode = .SPSC → depth prod dev.consIdx ≤ depth dev.prodIdx dev.consIdx
  | .write, .unlock _ isFull => isFull = true → dev.stuck .write = true
  | .write, .check _ isFull => isFull = true → dev.stuck .write = true
  | .write, .asleep _ isFull => isFull = true → dev.stuck .write = true
  | _, _ => True

-- The same for any process: one that sleeps in a transfer has seen that it must.
def Believes (dev : Dev) (side : Wq) : Local ⊕ Poller → Prop
  | .inl here => here.parkedOn side = true → dev.stuck side = true
  | .inr poller => poller.pc.Believes dev side

-- What a step of the driver can do to the beliefs about one side: take the wakeup over,
-- give it, or leave them true.
inductive UserEffect (side : Wq) (me : Nat) (w : World) (here : Local) (w' : World)
    (next : Local) : Prop
  | owes (h : next.owesWake side = true)
  | wakes (h : w'.waiters side = [])
  | quiet (hbelief : ∀ there, Believes w.dev side there → Believes w'.dev side there)
      (howes : here.owesWake side = false)
      (hparked : next.parkedOn side = true → w'.dev.stuck side = true)
      (hwaiters : ∀ p, p ≠ me → p ∈ w'.waiters side → p ∈ w.waiters side)

-- The lock-free path decides on nothing else of the device.
structure SameIndices (dev other : Dev) : Prop where
  mode : other.mode = dev.mode
  prodIdx : other.prodIdx = dev.prodIdx
  consIdx : other.consIdx = dev.consIdx
  numBuffers : other.numBuffers = dev.numBuffers

def SmodePc.InBlocking (arg : SmodeArg) : SmodePc → Prop
  | .check => Mode.ofInt arg.mode ≠ some .SPSC
  | .lock mode | .switch mode => mode = .BLOCKING
  | .unlock _ => True

-- Where a process can be while nobody asks for SPSC mode.
def Local.InBlocking : Local → Prop
  | .readSpsc .. | .writeSpsc .. => False
  | .smode arg pc => pc.InBlocking arg
  | _ => True

end Definitions

section Beliefs

variable {side : Wq} {dev other : Dev}

theorem Believes.mono {there : Local ⊕ Poller} (h : Believes dev side there)
    (hstuck : dev.stuck side = true → other.stuck side = true)
    (hprod : side = .read → other.mode = .SPSC → dev.mode = .SPSC ∧ other.prodIdx = dev.prodIdx)
    (hdepth : side = .write → other.mode = .SPSC → dev.mode = .SPSC ∧ ∀ prod,
      depth prod dev.consIdx ≤ depth dev.prodIdx dev.consIdx →
        depth prod other.consIdx ≤ depth other.prodIdx other.consIdx) :
    Believes other side there := by
  rcases there with here | ⟨events, pc⟩
  · exact fun hparked => hstuck (h hparked)
  · cases side with
    | read =>
        cases pc with
        | emptyCons prod =>
            intro hm
            obtain ⟨hm', hsame⟩ := hprod rfl hm
            exact hsame.trans (h hm')
        | full | fullCons | unlock | check | asleep => exact fun he => hstuck (h he)
        | queueRead | queueWrite | sample | empty | lock | test | leaveRead | leaveWrite
        | returned => trivial
    | write =>
        cases pc with
        | fullCons isEmpty prod =>
            intro hm
            obtain ⟨hm', hle⟩ := hdepth rfl hm
            exact hle prod (h hm')
        | unlock | check | asleep => exact fun hf => hstuck (h hf)
        | queueRead | queueWrite | sample | empty | emptyCons | full | lock | test | leaveRead
        | leaveWrite | returned => trivial

theorem Believes.blocking {there : Local ⊕ Poller} (h : Believes dev side there)
    (hm : other.mode = .BLOCKING) (hstuck : dev.stuck side = true → other.stuck side = true) :
    Believes other side there := by
  have hno (hs : other.mode = .SPSC) : False := by
    rw [hm] at hs
    cases hs
  exact h.mono hstuck (fun _ hs => (hno hs).elim) fun _ hs => (hno hs).elim

theorem SameIndices.stuck_eq (h : SameIndices dev other) (hm : dev.mode = .SPSC) (side : Wq) :
    other.stuck side = dev.stuck side := by
  have hm' := h.mode.trans hm
  cases side with
  | read => simp only [Dev.stuck, hm, hm', spscIsEmpty, h.prodIdx, h.consIdx]
  | write => simp only [Dev.stuck, hm, hm', spscIsFull, h.prodIdx, h.consIdx, h.numBuffers]

theorem Believes.same {there : Local ⊕ Poller} (h : Believes dev side there)
    (hm : dev.mode = .SPSC) (hsame : SameIndices dev other) : Believes other side there := by
  refine h.mono (by rw [hsame.stuck_eq hm]; exact id) (fun _ _ => ⟨hm, hsame.prodIdx⟩)
    fun _ _ => ⟨hm, fun prod hle => ?_⟩
  rw [hsame.prodIdx, hsame.consIdx]
  exact hle

-- The producer leaves room for the one it publishes, and an index loaded before is still
-- between the two.
theorem Believes.publish {there : Local ⊕ Poller} (h : Believes dev .write there)
    (hm : dev.mode = .SPSC) (hg : Geometry dev.ring)
    (hroom : depth dev.prodIdx dev.consIdx < dev.numBuffers)
    (hprod : other.prodIdx = dev.prodIdx + 1) (hcons : other.consIdx = dev.consIdx) :
    Believes other .write there := by
  refine h.mono (fun hfull => ?_) (fun hs => by cases hs) fun _ _ => ⟨hm, fun prod hle => ?_⟩
  · have hle : dev.numBuffers ≤ depth dev.prodIdx dev.consIdx := by
      simp only [Dev.stuck, hm, spscIsFull, decide_eq_true_eq] at hfull
      exact hfull
    omega
  · rw [hprod, hcons]
    have hlt : dev.numBuffers < 2 ^ 32 := hg.num_lt
    have hnext : depth (dev.prodIdx + 1) dev.consIdx = depth dev.prodIdx dev.consIdx + 1 :=
      depth_advance_head dev.prodIdx dev.consIdx 1 (by omega)
    omega

-- The consumer has seen a message before it takes one.
theorem Believes.release {there : Local ⊕ Poller} (h : Believes dev .read there)
    (hm : dev.mode = .SPSC) (hready : 0 < depth dev.prodIdx dev.consIdx)
    (hprod : other.prodIdx = dev.prodIdx) : Believes other .read there := by
  refine h.mono (fun hempty => ?_) (fun _ _ => ⟨hm, hprod⟩) fun hs => by cases hs
  have heq : dev.prodIdx = dev.consIdx := by simpa [Dev.stuck, hm, spscIsEmpty] using hempty
  rw [heq, depth_self] at hready
  omega

end Beliefs

section Blocking

variable {side : Wq} {me : Nat} {w w' : World} {here next : Local}

theorem stuck_write_of_empty {dev : Dev} (hm : dev.mode = .BLOCKING) (hb : CountBounds dev)
    (ho : occupancy dev = 0) : dev.stuck .write = false := by
  have hn := hb.num_pos
  have hcount : toUnsigned dev.count = 0 := by simpa [occupancy, hm] using ho
  simp only [Dev.stuck, hm, ringIsFull, hcount, decide_eq_false_iff_not]
  omega

theorem SmodeMove.wake_effect {arg : SmodeArg} {pc : SmodePc} {after : Next SmodePc}
    (hm : w.dev.mode = .BLOCKING) (hb : CountBounds w.dev) (hpc : pc.InBlocking arg)
    (h : SmodeMove arg me w pc w' after) :
    WakeEffect side me w (.smode arg pc) w' (after.lift (.smode arg)) := by
  cases h with
  | switch ho hp =>
      obtain rfl := hpc
      cases side with
      | read =>
          refine .quiet (fun _ => ?_) rfl (fun h => by cases h) fun _ _ h => h
          simp [Dev.stuck, Dev.switched, ringIsEmpty]
      | write =>
          refine .quiet (fun hfull => ?_) rfl (fun h => by cases h) fun _ _ h => h
          rw [stuck_write_of_empty hm hb ho] at hfull
          cases hfull
  | reject | accept | lock | refuse | unlock => cases side <;> exact .still rfl rfl rfl rfl

theorem ResetMove.wake_effect {pc : ResetPc} {after : Next ResetPc}
    (h : ResetMove me w pc w' after) :
    WakeEffect side me w (.reset pc) w' (after.lift .reset) := by
  cases h with
  | @store field =>
      obtain ⟨_, _, _, _, _, _, _, hframe⟩ := resetStore_frame w.dev field
      rw [hframe]
      cases side <;> exact .still rfl rfl rfl rfl
  | lock | unlock => cases side <;> exact .still rfl rfl rfl rfl

theorem GetstatsMove.wake_effect {fault : Bool} {pc : GetstatsPc} {after : Next GetstatsPc}
    (h : GetstatsMove fault me w pc w' after) :
    WakeEffect side me w (.getstats fault pc) w' (after.lift (.getstats fault)) := by
  cases h <;> cases side <;> exact .still rfl rfl rfl rfl

theorem PollMove.wake_effect {pc : PollPc} {after : Next PollPc} (h : PollMove me w pc w' after) :
    WakeEffect side me w (.poll pc) w' (after.lift .poll) := by
  cases h <;> cases side <;> exact .still rfl rfl rfl rfl

theorem Next.lift_inBlocking {π : Type} {here : π → Local} (h : ∀ x, (here x).InBlocking)
    (after : Next π) : (after.lift here).InBlocking := by
  cases after with
  | ret => trivial
  | _ pc => exact h pc

theorem Move.in_blocking {choice : Choice} (hm : w.dev.mode = .BLOCKING) (hhere : here.InBlocking)
    (hstart : ∀ request, choice = .start request → StaysBlocking me request)
    (h : Move me w choice here w' next) : w'.dev.mode = .BLOCKING ∧ next.InBlocking := by
  cases h with
  | @enter _ request _ =>
      refine ⟨hm, ?_⟩
      cases request with
      | smode => exact hstart _ rfl
      | read | write | resize | reset | getstats | poll => trivial
  | readSampleSpsc hs | writeSampleSpsc hs => rw [hm] at hs; cases hs
  | readSampleBlocking | writeSampleBlocking => exact ⟨hm, trivial⟩
  | readBlocking h =>
      cases h with
      | wait hw => exact ⟨hw.dev_eq ▸ hm, Next.lift_inBlocking (by intro _; trivial) _⟩
      | consume => exact ⟨(consumeStep_mode ..).trans hm, trivial⟩
      | lock | lockSignal | again | sleep | ready | unlockSleep | unlockOk | unlockError | wake =>
          exact ⟨hm, trivial⟩
  | writeBlocking h =>
      cases h with
      | wait hw => exact ⟨hw.dev_eq ▸ hm, Next.lift_inBlocking (by intro _; trivial) _⟩
      | produce => exact ⟨(produceStep_mode ..).trans hm, trivial⟩
      | lock | lockSignal | clamp | again | sleep | ready | unlockSleep | relock | relockSignal
      | unlockOk | unlockError | wake => exact ⟨hm, trivial⟩
  | readSpsc | writeSpsc => exact hhere.elim
  | resize h => cases h <;> exact ⟨hm, trivial⟩
  | smode h =>
      cases h with
      | accept hok => exact ⟨hm, blocking_of_smodeCheck hhere hok⟩
      | lock => exact ⟨hm, hhere⟩
      | switch => exact ⟨hhere, trivial⟩
      | reject | refuse | unlock => exact ⟨hm, trivial⟩
  | reset h =>
      cases h with
      | store => exact ⟨(resetStore_mode ..).trans hm, trivial⟩
      | lock | unlock => exact ⟨hm, trivial⟩
  | getstats h => cases h <;> exact ⟨hm, trivial⟩
  | poll h => cases h <;> exact ⟨hm, trivial⟩

theorem Move.wake_effect_blocking {choice : Choice} (hm : w.dev.mode = .BLOCKING)
    (hb : CountBounds w.dev) (hc : here.Checked w.dev) (hhere : here.InBlocking)
    (h : Move me w choice here w' next) : WakeEffect side me w here w' next := by
  cases h with
  | @enter _ request hidle =>
      rcases hidle with rfl | ⟨ret, rfl⟩
      · cases side <;> cases request <;> exact .still rfl rfl rfl rfl
      · cases side <;> cases request <;> exact .still rfl rfl rfl rfl
  | readSampleSpsc | readSampleBlocking | writeSampleSpsc | writeSampleBlocking =>
      cases side <;> exact .still rfl rfl rfl rfl
  | readBlocking h => exact h.wake_effect hm hc
  | writeBlocking h => exact h.wake_effect hm hc
  | readSpsc | writeSpsc => exact hhere.elim
  | resize h => exact h.wake_effect hm hb
  | smode h => exact h.wake_effect hm hb hhere
  | reset h => exact h.wake_effect
  | getstats h => exact h.wake_effect
  | poll h => exact h.wake_effect

theorem WakeEffect.user (hm : w'.dev.mode = .BLOCKING) (hhere : here.InBlocking)
    (h : WakeEffect side me w here w' next) : UserEffect side me w here w' next := by
  cases h with
  | owes h => exact .owes h
  | wakes h => exact .wakes h
  | alone hspsc =>
      exfalso
      unfold Local.spscOn at hspsc
      split at hspsc
      · exact hhere
      · exact hhere
      · cases hspsc
  | quiet hstuck howes hparked hwaiters =>
      exact .quiet (fun _ hthere => hthere.blocking hm hstuck) howes hparked hwaiters

end Blocking

section Spsc

variable {side : Wq} {me : Nat} {w w' : World} {here next : Local}

theorem UserEffect.still (hm : w.dev.mode = .SPSC) (hsame : SameIndices w.dev w'.dev)
    (howes : here.owesWake side = false) (hparked : next.parkedOn side = false)
    (hwaiters : w'.waiters side = w.waiters side) : UserEffect side me w here w' next := by
  refine .quiet (fun _ h => h.same hm hsame) howes (fun h => ?_) fun p _ h => ?_
  · rw [hparked] at h
    cases h
  · rw [hwaiters] at h
    exact h

theorem WaitMove.user_effect {wq : Wq} {cond : Dev → Bool} {pc : WaitPc} {out : WaitNext}
    (hw : WaitMove wq cond me w pc w' out) (h : Waiting out wq here next)
    (hcond : cond w.dev = !w.dev.stuck wq) : UserEffect side me w here w' next := by
  refine .quiet ?_ h.owesWake ?_ fun p hp hmem => hw.waiters_sub hp hmem
  · rw [hw.dev_eq]
    exact fun _ h => h
  · intro hnext
    obtain ⟨rfl, rfl⟩ := h.parkedOn hnext
    have hfalse := hw.asleep
    rw [hw.dev_eq] at hfalse ⊢
    simpa [hcond] using hfalse

theorem SpscReadMove.user_effect {nonblock : Bool} {u : UserRead} {pc : SpscReadPc}
    {after : Next SpscReadPc} (hm : w.dev.mode = .SPSC)
    (hpc : ConsumerOk w.dev.ring w.slotsPtr u pc) (h : SpscReadMove nonblock u me w pc w' after) :
    UserEffect side me w (.readSpsc nonblock u pc) w' (after.lift (.readSpsc nonblock u)) := by
  cases h with
  | empty | again | block | ready | sleep | consume | len | copyByte | copyFault | copyDone =>
      cases side <;> exact .still hm ⟨rfl, rfl, rfl, rfl⟩ rfl rfl rfl
  | wait hw => exact hw.user_effect (.readSpsc ..) (by simp [Dev.stuck, hm])
  | publish =>
      cases side with
      | read =>
          exact .quiet (fun _ h => h.release hm hpc.1.ready rfl) rfl (fun h => by cases h)
            fun _ _ h => h
      | write => exact .owes rfl
  | bytesLoad | bytesStore | msgsLoad | msgsStore | trace =>
      cases side with
      | read => exact .still hm ⟨rfl, rfl, rfl, rfl⟩ rfl rfl rfl
      | write => exact .owes rfl
  | wake =>
      cases side with
      | read => exact .still hm ⟨rfl, rfl, rfl, rfl⟩ rfl rfl rfl
      | write => exact .wakes rfl

theorem SpscWriteMove.user_effect {nonblock : Bool} {u : UserWrite} {pc : SpscWritePc}
    {after : Next (UserWrite × SpscWritePc)} (hm : w.dev.mode = .SPSC)
    (hg : Geometry w.dev.ring) (hpc : ProducerOk w.dev.ring w.slotsPtr u pc)
    (h : SpscWriteMove nonblock u me w pc w' after) :
    UserEffect side me w (.writeSpsc nonblock u pc) w'
      (after.lift fun (u, pc) => .writeSpsc nonblock u pc) := by
  cases h with
  | clamp | full | again | block | ready | sleep | produce | copyByte | copyFault | copyDone
  | setLen => cases side <;> exact .still hm ⟨rfl, rfl, rfl, rfl⟩ rfl rfl rfl
  | wait hw => exact hw.user_effect (.writeSpsc ..) (by simp [Dev.stuck, hm])
  | @publish f =>
      cases side with
      | read => exact .owes rfl
      | write =>
          obtain ⟨hf, -⟩ := hpc
          have hprod : f.prod + 1 = w.dev.prodIdx + 1 := by
            rw [hf.prod]
            rfl
          exact .quiet (fun _ h => h.publish hm hg hf.room hprod rfl) rfl (fun h => by cases h)
            fun _ _ h => h
  | bytesLoad | bytesStore | msgsLoad | msgsStore | occ | peakHigher | peakKept | peakStore =>
      cases side with
      | read => exact .owes rfl
      | write => exact .still hm ⟨rfl, rfl, rfl, rfl⟩ rfl rfl rfl
  | wake =>
      cases side with
      | read => exact .wakes rfl
      | write => exact .still hm ⟨rfl, rfl, rfl, rfl⟩ rfl rfl rfl

theorem Move.user_effect_spsc {choice : Choice} {producer consumer : Nat} (hok : RingOk w)
    (hhere : here.SpscOk (Roles.pair producer consumer) w me)
    (h : Move me w choice here w' next) : UserEffect side me w here w' next := by
  have hm := hok.mode
  cases h with
  | @enter _ request hidle =>
      rcases hidle with rfl | ⟨ret, rfl⟩
      · cases side <;> cases request <;> exact .still hm ⟨rfl, rfl, rfl, rfl⟩ rfl rfl rfl
      · cases side <;> cases request <;> exact .still hm ⟨rfl, rfl, rfl, rfl⟩ rfl rfl rfl
  | readSampleSpsc | readSampleBlocking | writeSampleSpsc | writeSampleBlocking =>
      cases side <;> exact .still hm ⟨rfl, rfl, rfl, rfl⟩ rfl rfl rfl
  | readSpsc h => exact h.user_effect hm hhere.2
  | writeSpsc h => exact h.user_effect hm hok.geometry hhere.2
  | resize => exact hhere.1.elim
  | readBlocking | writeBlocking | smode => exact hhere.elim
  | reset h =>
      cases h with
      | @store field =>
          obtain ⟨_, _, _, _, _, _, _, hframe⟩ := resetStore_frame w.dev field
          rw [hframe]
          cases side <;> exact .still hm ⟨rfl, rfl, rfl, rfl⟩ rfl rfl rfl
      | lock | unlock => cases side <;> exact .still hm ⟨rfl, rfl, rfl, rfl⟩ rfl rfl rfl
  | getstats h => cases h <;> cases side <;> exact .still hm ⟨rfl, rfl, rfl, rfl⟩ rfl rfl rfl
  | poll h => cases h <;> cases side <;> exact .still hm ⟨rfl, rfl, rfl, rfl⟩ rfl rfl rfl

end Spsc

end Kbuf
