import Kbuf.Blocking.Invariant
import Kbuf.Machine.Contents
import Kbuf.ModeSwitch.Balance
import Kbuf.Resize.Overflow

namespace Kbuf

open Interleaving

section Steps

variable {w w' : World} {here next there : Local} {me : Nat}

-- A clamped count fits the slots of the device, and a resize has its array ready.
def Local.Fitting (w : World) : Local → Prop
  | .writeBlocking _ u pc => pc.unplaced = true → u.count ≤ w.dev.bufferSize
  | .resize rq pc => pc.Prepared w rq
  | _ => True

-- What a step finds another process doing.
structure NextTo (w : World) (here there : Local) : Prop where
  owned : ∀ ptr, there.owned = some ptr → ptr ≠ w.slotsPtr ∧ ptr < w.nextPtr
  fits : ∀ rq ptr, here = .resize rq (.swap ptr) → occupancy w.dev = 0 →
    ∀ count, there.clamped = some count → count ≤ rq.bufferSize

-- The contents of the device before and after a step. In SPSC mode it is empty, and
-- nothing is known about the positions of the blocking path.
structure Holding (w : World) : Prop where
  geometry : Geometry w.dev
  ring : w.dev.mode = .BLOCKING → BlockingRing w.dev
  delivered : w.Delivered

structure ContentsStep (w : World) (here : Local) (w' : World) (next : Local) : Prop where
  holding : Holding w'
  fitting : next.Fitting w'
  others : ∀ there : Local, NextTo w here there → there.Fitting w → there.Fitting w'

theorem Holding.blockingDev (h : Holding w) (hmode : w.dev.mode = .BLOCKING) :
    BlockingDev w.dev.numBuffers w.dev.bufferSize w.dev :=
  ⟨hmode, rfl, rfl, h.geometry, h.ring hmode⟩

theorem Holding.of_contents (h : Holding w) (hsame : w'.dev.contents = w.dev.contents)
    (hlog : w'.log = w.log) : Holding w' := by
  refine ⟨?_, ?_, h.delivered.of_eq hlog (queue_of_contents hsame)⟩
  · obtain ⟨_, _, _, _, _, _, _, hdev⟩ := Dev.exists_of_contents hsame
    rw [hdev]
    exact h.geometry.of_eq rfl rfl rfl
  · obtain ⟨_, _, _, _, _, _, _, hdev⟩ := Dev.exists_of_contents hsame
    rw [hdev]
    intro hmode
    obtain ⟨hnonneg, hle, hlt, hwrite⟩ := h.ring hmode
    exact ⟨hnonneg, hle, hlt, hwrite⟩

theorem Local.Fitting.of_eq (hsize : w'.dev.bufferSize = w.dev.bufferSize)
    (harrays : ∀ ptr, there.owned = some ptr → w'.array ptr = w.array ptr)
    (h : there.Fitting w) : there.Fitting w' := by
  cases there with
  | writeBlocking => exact fun hun => hsize ▸ h hun
  | resize => exact ResizePc.Prepared.of_arrays h harrays
  | idle | readEntry | readBlocking | readSpsc | writeEntry | writeSpsc | smode | reset
  | getstats | poll | done => trivial

theorem ContentsStep.quiet (hw : Holding w) (hsame : w'.dev.contents = w.dev.contents)
    (harrays : ∀ ptr, ptr ≠ w.slotsPtr → ptr < w.nextPtr → w'.array ptr = w.array ptr)
    (hlog : w'.log = w.log) (hnext : next.Fitting w') : ContentsStep w here w' next where
  holding := hw.of_contents hsame hlog
  fitting := hnext
  others there hside hthere := by
    obtain ⟨_, _, _, _, _, _, _, hdev⟩ := Dev.exists_of_contents hsame
    refine hthere.of_eq (by rw [hdev]) fun ptr ho => ?_
    exact harrays ptr (hside.owned ptr ho).1 (hside.owned ptr ho).2

-- A step that only takes or releases the lock, wakes somebody or counts a sleep.
theorem ContentsStep.still (hw : Holding w) (hl : SameLayout w w')
    (hsame : w'.dev.contents = w.dev.contents) (hlog : w'.log = w.log)
    (hnext : next.Fitting w') : ContentsStep w here w' next :=
  .quiet hw hsame (fun ptr _ _ => hl.array ptr) hlog hnext

-- A critical section that moves one message.
theorem ContentsStep.locked {dev : Dev} {log : List Event}
    (hd : BlockingDev w.dev.numBuffers w.dev.bufferSize dev)
    (hdel : World.Delivered { w with dev := dev, log := log })
    (hnext : next.Fitting { w with dev := dev, log := log }) :
    ContentsStep w here { w with dev := dev, log := log } next where
  holding := ⟨hd.geometry, fun _ => hd.ring, hdel⟩
  fitting := hnext
  others there hside hthere := by
    refine hthere.of_eq hd.size fun ptr ho => ?_
    simp only [World.array, if_neg (hside.owned ptr ho).1]

theorem ReadMove.contents_step {nonblock : Bool} {u : UserRead} {pc : ReadPc}
    {after : Next ReadPc} (hw : Holding w) (he : w.dev.EmptyInSpsc)
    (hc : (Local.readBlocking nonblock u pc).Checked w.dev)
    (h : ReadMove nonblock u me w pc w' after) :
    ContentsStep w (.readBlocking nonblock u pc) w' (after.lift (.readBlocking nonblock u)) := by
  cases h with
  | @wait _ _ out hwait =>
      refine .still hw hwait.sameLayout (by rw [hwait.dev_eq]) hwait.log_eq ?_
      cases out <;> trivial
  | consume =>
      -- The ring is not empty, so the mode is not SPSC.
      have hmode : w.dev.mode = .BLOCKING := by
        cases hm : w.dev.mode with
        | BLOCKING => rfl
        | SPSC =>
            have hne : ringIsEmpty w.dev = false := hc
            simp [ringIsEmpty, (he hm).1] at hne
      rcases consumeStep_cases (hw.blockingDev hmode) hc u with
        ⟨out, hs⟩ | ⟨dev, message, hd, hq, hs⟩
      · rw [hs]
        exact .still hw ⟨rfl, rfl, rfl, rfl, rfl, rfl⟩ rfl rfl trivial
      · rw [hs]
        exact .locked hd (hw.delivered.consumed hq rfl) trivial
  | lock | lockSignal | again | sleep | ready | unlockSleep | unlockOk | unlockError | wake =>
      exact .still hw ⟨rfl, rfl, rfl, rfl, rfl, rfl⟩ rfl rfl trivial

theorem WriteMove.contents_step {nonblock : Bool} {u : UserWrite} {pc : WritePc}
    {after : Next (UserWrite × WritePc)} (hw : Holding w)
    (hun : w.dev.mode = .SPSC → pc.unproduced = false)
    (hc : (Local.writeBlocking nonblock u pc).Checked w.dev)
    (hfits : pc.unplaced = true → u.count ≤ w.dev.bufferSize)
    (h : WriteMove nonblock u me w pc w' after) :
    ContentsStep w (.writeBlocking nonblock u pc) w'
      (after.lift fun (u, pc) => .writeBlocking nonblock u pc) := by
  cases h with
  | @wait _ _ out hwait =>
      refine .still hw hwait.sameLayout (by rw [hwait.dev_eq]) hwait.log_eq ?_
      cases out with
      | wait | woken => exact fun _ => hwait.sameLayout.bufferSize ▸ hfits rfl
      | interrupted => trivial
  | clamp =>
      refine .still hw ⟨rfl, rfl, rfl, rfl, rfl, rfl⟩ rfl rfl fun _ => ?_
      rw [clamp_count]
      exact Nat.min_le_right _ _
  | produce =>
      -- A write that is about to store its message excludes SPSC mode.
      have hmode : w.dev.mode = .BLOCKING := by
        cases hm : w.dev.mode with
        | BLOCKING => rfl
        | SPSC => cases hun hm
      rcases produceStep_cases (hw.blockingDev hmode) hc u (hfits rfl) with
        ⟨dev, hd, hq, hs⟩ | ⟨dev, hd, hq, -, hs⟩
      · rw [hs]
        exact .locked hd (hw.delivered.of_eq rfl hq) nofun
      · rw [hs]
        exact .locked hd (hw.delivered.produced hq) nofun
  | lock | again | unlockOk => exact .still hw ⟨rfl, rfl, rfl, rfl, rfl, rfl⟩ rfl rfl nofun
  | sleep | ready | unlockSleep | relock =>
      exact .still hw ⟨rfl, rfl, rfl, rfl, rfl, rfl⟩ rfl rfl hfits
  | lockSignal | relockSignal | unlockError | wake =>
      exact .still hw ⟨rfl, rfl, rfl, rfl, rfl, rfl⟩ rfl rfl trivial

theorem Dev.EmptyInSpsc.queue_eq_nil {dev : Dev} (he : dev.EmptyInSpsc) (hcount : dev.count = 0) :
    queue dev = [] := by
  unfold queue
  split
  · rename_i hm
    rw [spscQueue, (he hm).2, FreeRunning.depth_self]
    rfl
  · rw [blockingQueue, hcount]
    rfl

theorem ResizeMove.contents_step {rq : ResizeArg} {pc : ResizePc} {after : Next ResizePc}
    (hw : Holding w) (hb : CountBounds w.dev) (he : w.dev.EmptyInSpsc)
    (hlt : w.slotsPtr < w.nextPtr) (hpc : pc.Prepared w rq)
    (h : ResizeMove rq me w pc w' after) :
    ContentsStep w (.resize rq pc) w' (after.lift (.resize rq)) := by
  cases h with
  | accept hcheck =>
      have hvalid : rq.Valid := resizeCheck_valid hcheck
      exact .still hw ⟨rfl, rfl, rfl, rfl, rfl, rfl⟩ rfl rfl hvalid
  | @alloc slots halloc =>
      refine .quiet hw rfl (fun ptr _ hptr => ?_) rfl (.alloc hpc hlt halloc)
      rw [array_alloc w _ hlt, if_neg (Nat.ne_of_lt hptr)]
  | lock => exact .still hw ⟨rfl, rfl, rfl, rfl, rfl, rfl⟩ rfl rfl hpc
  | @swap ptr hempty =>
      obtain ⟨hrq, hslots⟩ := hpc
      have hzero := count_eq_zero_of_occupancy hb he hempty
      have hpos : 0 < rq.numBuffers := hrq.num_pos
      refine ⟨⟨hrq.geometry w.dev hslots, fun _ => ?_, hw.delivered.of_eq rfl ?_⟩, trivial,
        fun there hside hthere => ?_⟩
      · exact ⟨le_refl 0, Int.natCast_nonneg _, hpos, (Nat.zero_mod _).symm⟩
      · rw [he.queue_eq_nil hzero]
        exact Dev.EmptyInSpsc.queue_eq_nil (fun _ => ⟨rfl, rfl⟩) rfl
      · cases there with
        | writeBlocking nonblock u pc =>
            intro hun
            refine hside.fits rq ptr rfl hempty u.count ?_
            unfold Local.clamped
            exact if_pos hun
        | resize =>
            exact ResizePc.Prepared.of_arrays hthere fun other _ =>
              array_install w _ ptr other rfl
        | idle | readEntry | readBlocking | readSpsc | writeEntry | writeSpsc | smode | reset
        | getstats | poll | done => trivial
  | busy | unlockBusy | unlock | freeOld | reject | nomem | freeNew | wake =>
      exact .still hw ⟨rfl, rfl, rfl, rfl, rfl, rfl⟩ rfl rfl trivial

theorem SmodeMove.contents_step {arg : SmodeArg} {pc : SmodePc} {after : Next SmodePc}
    (hw : Holding w) (hb : CountBounds w.dev) (he : w.dev.EmptyInSpsc)
    (h : SmodeMove arg me w pc w' after) :
    ContentsStep w (.smode arg pc) w' (after.lift (.smode arg)) := by
  cases h with
  | @switch mode hempty =>
      have hzero := count_eq_zero_of_occupancy hb he hempty
      have hpos : 0 < w.dev.numBuffers := hw.geometry.num_pos
      refine ⟨⟨hw.geometry.of_eq rfl rfl rfl, fun _ => ?_, hw.delivered.of_eq rfl ?_⟩, trivial,
        fun there hside hthere => ?_⟩
      · exact ⟨le_refl 0, Int.natCast_nonneg _, hpos, (Nat.zero_mod _).symm⟩
      · rw [he.queue_eq_nil hzero]
        exact Dev.EmptyInSpsc.queue_eq_nil (fun _ => ⟨rfl, rfl⟩) rfl
      · refine hthere.of_eq rfl fun ptr ho => ?_
        simp only [World.array, if_neg (hside.owned ptr ho).1]
  | reject | accept | lock | refuse | unlock =>
      exact .still hw ⟨rfl, rfl, rfl, rfl, rfl, rfl⟩ rfl rfl trivial

theorem Move.contents_step {choice : Choice} (hw : Holding w) (hb : CountBounds w.dev)
    (he : w.dev.EmptyInSpsc) (hlt : w.slotsPtr < w.nextPtr) (hc : here.Checked w.dev)
    (hnot : here.notSpsc = true) (hun : w.dev.mode = .SPSC → here.unproduced = false)
    (hhere : here.Fitting w) (hsample : next.notSpsc = true)
    (h : Move me w choice here w' next) : ContentsStep w here w' next := by
  cases h with
  | @enter _ request =>
      refine .still hw ⟨rfl, rfl, rfl, rfl, rfl, rfl⟩ rfl rfl ?_
      cases request <;> trivial
  | readSampleSpsc | writeSampleSpsc => cases hsample
  | readSampleBlocking => exact .still hw ⟨rfl, rfl, rfl, rfl, rfl, rfl⟩ rfl rfl trivial
  | writeSampleBlocking => exact .still hw ⟨rfl, rfl, rfl, rfl, rfl, rfl⟩ rfl rfl nofun
  | readBlocking h => exact h.contents_step hw he hc
  | writeBlocking h => exact h.contents_step hw hun hc hhere
  | readSpsc | writeSpsc => cases hnot
  | resize h => exact h.contents_step hw hb he hlt hhere
  | smode h => exact h.contents_step hw hb he
  | reset h =>
      cases h with
      | @store field =>
          refine .still hw (resetStore_sameLayout w field) (resetStore_contents _ _) rfl ?_
          dsimp only [Next.lift]
          trivial
      | lock | unlock => exact .still hw ⟨rfl, rfl, rfl, rfl, rfl, rfl⟩ rfl rfl trivial
  | getstats h =>
      cases h with
      | lock | loadSpsc | loadBlocking | occ =>
          exact .still hw ⟨rfl, rfl, rfl, rfl, rfl, rfl⟩ rfl rfl trivial
      | unlock =>
          refine .still hw ⟨rfl, rfl, rfl, rfl, rfl, rfl⟩ rfl rfl ?_
          dsimp only [Next.lift]
          trivial
  | poll h => cases h <;> exact .still hw ⟨rfl, rfl, rfl, rfl, rfl, rfl⟩ rfl rfl trivial

end Steps

structure ContentsInv (s : System) : Prop where
  balance : BalanceInv s
  own : OwnInv s
  holding : Holding s.shared
  fitting : ∀ p, (s.locals p).Fitting s.shared

section Runs

variable {dev : Dev} {s t : System} {act : Act Choice}

theorem contentsInv_step (hinv : ContentsInv s) (hsample : SamplesBlocking s act)
    (hidle : SwitchesIdle s act) (hfit : ClampedFit s act) (h : step driver s act = some t) :
    ContentsInv t := by
  have hbalance := balanceInv_step hinv.balance hsample hidle h
  have hown := ownInv_step hinv.own h
  obtain ⟨w, next, hmove, rfl⟩ := step_move h
  have hnext := hbalance.notSpsc act.pid
  rw [State.put_locals_self] at hnext
  have hstep := hmove.contents_step hinv.holding hinv.balance.count.bounds hinv.balance.empty
    hinv.own.slotsPtr_lt (hinv.balance.count.checked act.pid) (hinv.balance.notSpsc act.pid)
    (fun hm => hinv.balance.produced hm act.pid) (hinv.fitting act.pid) hnext
  refine ⟨hbalance, hown, hstep.holding, ?_⟩
  refine State.forall_put (P := fun _ (here : Local) => here.Fitting w) hstep.fitting fun p _ => ?_
  refine hstep.others _ ⟨fun ptr ho => ?_, fun rq ptr hhere hempty => ?_⟩ (hinv.fitting p)
  · exact ⟨hinv.own.owned_ne p ptr ho, hinv.own.owned_lt p ptr ho⟩
  · exact hfit rq ptr hhere hempty p

theorem contentsInv_boot (hdev : Wellformed dev) (hmode : dev.mode = .BLOCKING)
    (hempty : queue dev = []) : ContentsInv (boot dev) where
  balance := balanceInv_boot hdev hmode hempty
  own := ownInv_boot dev
  holding := ⟨hdev.geometry, fun _ => (hdev.blockingDev hmode).ring, delivered_boot hempty⟩
  fitting _ := trivial

end Runs

end Kbuf
