import Kbuf.Spsc.Steps

namespace Kbuf

open Interleaving FreeRunning

section Disturbed

-- The points of a write that a resize to `size` bytes would break: it has
-- clamped its count to the old size, or it has picked a slot of the old array.
def SpscWritePc.disturbed (size : Nat) (u : UserWrite) : SpscWritePc → Bool
  | .full | .fullCons _ | .sleep | .wait _ | .produce => size < u.count
  | .copy .. | .setLen _ | .publish _ => true
  | _ => false

-- The point of a read that a resize would break: it compares the old `prod_idx`
-- with the new `cons_idx`.
def SpscReadPc.disturbed : SpscReadPc → Bool
  | .emptyCons prod => prod ≠ 0
  | _ => false

def Local.disturbed (size : Nat) : Local → Bool
  | .writeSpsc _ u pc => pc.disturbed size u
  | .readSpsc _ _ pc => pc.disturbed
  | _ => false

-- A resize that goes through catches nobody at such a point.
def ResizesIdle (s : System) (act : Act Choice) : Prop :=
  ∀ rq ptr, s.locals act.pid = .resize rq (.swap ptr) → occupancy s.shared.dev = 0 →
    ∀ q, (s.locals q).disturbed rq.bufferSize = false

variable {ring : Dev} {array ptr : Nat} {rq : ResizeArg} {slots : List Slot}

theorem ProducerOk.resized {u : UserWrite} {pc : SpscWritePc} (dev : Dev) (hrq : rq.Accepted)
    (h : pc.disturbed rq.bufferSize u = false) :
    ProducerOk (dev.resized rq slots).ring ptr u pc := by
  have hroom : depth (dev.resized rq slots).ring.prodIdx (dev.resized rq slots).ring.consIdx <
      rq.numBuffers := by
    change depth 0 0 < rq.numBuffers
    rw [depth_self]
    exact hrq.num_pos
  cases pc with
  | full | sleep | wait => exact Nat.le_of_not_lt (of_decide_eq_false h)
  | fullCons => exact ⟨Nat.le_of_not_lt (of_decide_eq_false h), Or.inr hroom⟩
  | produce => exact ⟨Nat.le_of_not_lt (of_decide_eq_false h), hroom⟩
  | copy | setLen | publish => cases h
  | clamp | bytesLoad | bytesStore | msgsLoad | msgsStore | occ | peak | peakStore | wake =>
      trivial

-- A consumer that knows of a message would have kept the resize out.
theorem ConsumerOk.resized {u : UserRead} {pc : SpscReadPc} (dev : Dev)
    (hok : ConsumerOk ring array u pc) (hempty : depth ring.prodIdx ring.consIdx = 0)
    (h : pc.disturbed = false) : ConsumerOk (dev.resized rq slots).ring ptr u pc := by
  cases pc with
  | emptyCons prod =>
      intro hne
      exact absurd hne (of_decide_eq_false h)
  | consume =>
      have hpos : 0 < depth ring.prodIdx ring.consIdx := hok
      omega
  | len => exact absurd hempty (Nat.ne_of_gt hok.ready)
  | copy | publish => exact absurd hempty (Nat.ne_of_gt hok.1.ready)
  | bytesLoad | bytesStore | msgsLoad | msgsStore | trace | wake => exact hok
  | empty | sleep | wait => trivial

end Disturbed

section Effects

variable {roles : Roles} {me : Nat} {w w' : World} {here : Local}

theorem RingOk.depth_eq_zero (h : RingOk w) (hempty : occupancy w.dev = 0) :
    depth w.dev.ring.prodIdx w.dev.ring.consIdx = 0 := by
  unfold occupancy at hempty
  rw [h.mode] at hempty
  exact hempty

theorem RingOk.queue_eq_nil (h : RingOk w) (hempty : occupancy w.dev = 0) :
    queue w.dev = [] := by
  rw [queue_eq_ring h.mode, spscQueue, h.depth_eq_zero hempty]
  rfl

theorem RingOk.resized (h : RingOk w) {rq : ResizeArg} {ptr : Nat} (hrq : rq.Accepted)
    (hslots : w.array ptr =
      List.replicate rq.numBuffers ⟨List.replicate rq.bufferSize 0, 0⟩)
    (hempty : occupancy w.dev = 0) :
    RingOk (w.install (w.dev.resized rq (w.array ptr)) ptr) where
  mode := h.mode
  geometry := (hrq.geometry w.dev hslots).of_eq rfl rfl rfl
  ring := ⟨hrq.power, by change depth 0 0 ≤ rq.numBuffers; rw [depth_self]; exact Nat.zero_le _⟩
  delivered := by
    refine h.delivered.of_eq rfl ?_
    rw [h.queue_eq_nil hempty]
    exact (discipline_of_reset hrq.num_pos (fun _ => hrq.power) rfl rfl rfl rfl).2

-- The queue changes in step with the history.
theorem RingEffect.ringOk (hok : RingOk w) (hhere : here.SpscOk roles w me)
    (h : RingEffect roles me w here w') : RingOk w' := by
  cases h with
  | quiet hring hptr hlog =>
      have hmode : w'.dev.mode = .SPSC := (congrArg Dev.mode hring).trans hok.mode
      refine ⟨hmode, hring ▸ hok.geometry, hring ▸ hok.ring, hok.delivered.of_eq hlog ?_⟩
      rw [queue_eq_ring hmode, hring, queue_eq_ring hok.mode]
  | fill slot hme hroom hdata hlen hring hptr hlog =>
      have hmode : w'.dev.mode = .SPSC := (congrArg Dev.mode hring).trans hok.mode
      refine ⟨hmode, ?_, ?_, hok.delivered.of_eq hlog ?_⟩
      · rw [hring]
        exact hok.geometry.setSlot _ slot hdata hlen
      · rw [hring]
        exact ⟨hok.ring.power, hok.ring.depth_le⟩
      · rw [queue_eq_ring hmode, hring, queue_eq_ring hok.mode]
        exact spscQueue_fill hok.geometry hok.ring slot hroom
  | publish hme hroom hring hptr hlog =>
      have hmode : w'.dev.mode = .SPSC := (congrArg Dev.mode hring).trans hok.mode
      obtain ⟨hqueue, hspsc⟩ := spscQueue_publish hok.geometry hok.ring hroom
        { w.dev.ring with prodIdx := w.dev.ring.prodIdx + 1 } rfl rfl rfl rfl
      rw [← hring] at hqueue hspsc
      refine ⟨hmode, ?_, hspsc, ?_⟩
      · rw [hring]
        exact hok.geometry.of_eq rfl rfl rfl
      · have hpush : queue w'.dev = queue w.dev ++ [w.dev.ring.producerSlot.message] := by
          rw [queue_eq_ring hmode, hqueue, queue_eq_ring hok.mode]
          rfl
        exact (hok.delivered.produced hpush).of_eq hlog rfl
  | release count hme hready hring hptr hlog =>
      have hmode : w'.dev.mode = .SPSC := (congrArg Dev.mode hring).trans hok.mode
      obtain ⟨hqueue, hspsc⟩ := spscQueue_release hok.geometry hok.ring hready
        { w.dev.ring with consIdx := w.dev.ring.consIdx + 1 } rfl rfl rfl rfl
      rw [← hring] at hqueue hspsc
      refine ⟨hmode, ?_, hspsc, ?_⟩
      · rw [hring]
        exact hok.geometry.of_eq rfl rfl rfl
      · have hpop : queue w.dev = w.dev.ring.consumerSlot.message :: queue w'.dev := by
          rw [queue_eq_ring hmode, queue_eq_ring hok.mode, hqueue]
          rfl
        exact (hok.delivered.consumed hpop rfl).of_eq hlog rfl
  | swap rq ptr hhere' hempty hw =>
      subst hhere' hw
      obtain ⟨-, hrq, hslots⟩ := hhere
      exact hok.resized hrq hslots hempty

theorem RingEffect.producerOk {u : UserWrite} {pc : SpscWritePc} (hne : roles.producer ≠ me)
    (hhere : here.SpscOk roles w me)
    (hidle : ∀ rq ptr, here = .resize rq (.swap ptr) → occupancy w.dev = 0 →
      pc.disturbed rq.bufferSize u = false)
    (hpc : ProducerOk w.dev.ring w.slotsPtr u pc) (h : RingEffect roles me w here w') :
    ProducerOk w'.dev.ring w'.slotsPtr u pc := by
  cases h with
  | quiet hring hptr =>
      rw [hring, hptr]
      exact hpc
  | fill _ hme | publish hme => exact absurd hme.symm hne
  | release _ _ hready hring hptr =>
      rw [hring, hptr]
      exact hpc.release hready
  | swap rq ptr hswap hempty hw =>
      have hdisturbed := hidle rq ptr hswap hempty
      subst hswap hw
      exact .resized w.dev hhere.2.1 hdisturbed

theorem RingEffect.consumerOk {u : UserRead} {pc : SpscReadPc} (hne : roles.consumer ≠ me)
    (hok : RingOk w)
    (hidle : ∀ rq ptr, here = .resize rq (.swap ptr) → occupancy w.dev = 0 →
      pc.disturbed = false)
    (hpc : ConsumerOk w.dev.ring w.slotsPtr u pc) (h : RingEffect roles me w here w') :
    ConsumerOk w'.dev.ring w'.slotsPtr u pc := by
  cases h with
  | quiet hring hptr =>
      rw [hring, hptr]
      exact hpc
  | fill slot _ hroom _ _ hring hptr =>
      rw [hring, hptr]
      exact hpc.fill hok.geometry hok.ring slot hroom
  | publish _ hroom hring hptr =>
      rw [hring, hptr]
      exact hpc.publish hok.geometry hroom
  | release _ hme => exact absurd hme.symm hne
  | swap rq ptr hswap hempty hw =>
      have hdisturbed := hidle rq ptr hswap hempty
      subst hw
      exact hpc.resized w.dev (hok.depth_eq_zero hempty) hdisturbed

-- A move of one process leaves the others with what they know.
theorem SpscStep.other {next there : Local} {p : Nat} (hne : p ≠ me) (hok : RingOk w)
    (hhere : here.SpscOk roles w me)
    (howned : ∀ ptr, there.owned = some ptr → ptr ≠ w.slotsPtr ∧ ptr < w.nextPtr)
    (hidle : ∀ rq ptr, here = .resize rq (.swap ptr) → occupancy w.dev = 0 →
      there.disturbed rq.bufferSize = false)
    (hthere : there.SpscOk roles w p) (h : SpscStep roles me w here w' next) :
    there.SpscOk roles w' p := by
  cases there with
  | readSpsc nonblock u pc =>
      obtain ⟨rfl, hpc⟩ := hthere
      exact ⟨rfl, h.effect.consumerOk hne hok hidle hpc⟩
  | writeSpsc nonblock u pc =>
      obtain ⟨rfl, hpc⟩ := hthere
      exact ⟨rfl, h.effect.producerOk hne hhere hidle hpc⟩
  | resize rq pc =>
      obtain ⟨hmay, hpc⟩ := hthere
      refine ⟨hmay, ?_⟩
      cases pc with
      | lock ptr | swap ptr =>
          obtain ⟨hneq, hlt⟩ := howned ptr rfl
          refine ⟨hpc.1, ?_⟩
          rw [h.arrays ptr hneq hlt]
          exact hpc.2
      | check | alloc | unlockBusy | freeNew | unlock | freeOld | wake => exact hpc
  | idle | readEntry | readBlocking | writeEntry | writeBlocking | smode | reset | getstats | poll
  | done => exact hthere

end Effects

structure SpscInv (roles : Roles) (s : System) : Prop where
  own : OwnInv s
  ring : RingOk s.shared
  local_ok : ∀ p, (s.locals p).SpscOk roles s.shared p

section Runs

variable {roles : Roles} {s t : System} {dev : Dev}

theorem spscInv_step {act : Act Choice} (hinv : SpscInv roles s)
    (hstart : Starting roles.allows s act) (hidle : ResizesIdle s act)
    (h : step driver s act = some t) : SpscInv roles t := by
  have hown := ownInv_step hinv.own h
  obtain ⟨w, next, hmove, rfl⟩ := step_move h
  have hhere := hinv.local_ok act.pid
  have hstep := hmove.spsc_step hinv.ring hinv.own.slotsPtr_lt hhere hstart
  refine ⟨hown, hstep.effect.ringOk hinv.ring hhere, State.forall_put
    (P := fun p (here : Local) => here.SpscOk roles w p) hstep.next fun p hp => ?_⟩
  refine hstep.other hp hinv.ring hhere (fun ptr ho => ?_) (fun rq ptr hswap hempty => ?_)
    (hinv.local_ok p)
  · exact ⟨hinv.own.owned_ne p ptr ho, hinv.own.owned_lt p ptr ho⟩
  · exact hidle rq ptr hswap hempty p

theorem spscInv_boot (hdev : Wellformed dev) (hmode : dev.mode = .SPSC) (hempty : queue dev = []) :
    SpscInv roles (boot dev) where
  own := ownInv_boot dev
  ring := ringOk_of_wellformed hdev hmode (delivered_boot hempty)
  local_ok _ := trivial

end Runs

end Kbuf
