import Kbuf.Failure.Relies

namespace Kbuf

open Interleaving FreeRunning

section Transfers

variable {w w' : World} {here next : Local} {me : Nat}

theorem MessageStep.wait {wq : Wq} {cond : Dev → Bool} {pc : WaitPc} {out : WaitNext}
    (hdev : Wellformed w.dev) (hdel : w.Delivered) (hhere : here.Relies w)
    (hw : WaitMove wq cond me w pc w' out) (h : Waiting out wq here next) :
    MessageStep w here w' next := by
  have hl := hw.sameLayout
  have hd := hw.dev_eq
  refine .still hdev hdel hl (by rw [hd]) hw.log_eq ?_
  have hnext : next.Relies w := by
    cases h with
    | readBlocking =>
        cases out with
        | wait | woken => exact ⟨hhere.1, nofun⟩
        | interrupted => trivial
    | writeBlocking =>
        cases out with
        | wait | woken => exact ⟨hhere.1, hhere.2.1, nofun⟩
        | interrupted => trivial
    | readSpsc =>
        cases out with
        | wait | woken => exact ⟨hhere.1, trivial⟩
        | interrupted => trivial
    | writeSpsc =>
        cases out with
        | wait | woken => exact hhere
        | interrupted => trivial
  exact hnext.of_contents (by rw [hd]) hl.slotsPtr fun ptr _ => hl.array ptr

theorem ReadMove.message_step {nonblock : Bool} {u : UserRead} {pc : ReadPc}
    {after : Next ReadPc} (hdev : Wellformed w.dev) (hdel : w.Delivered)
    (hhere : (Local.readBlocking nonblock u pc).Relies w)
    (h : ReadMove nonblock u me w pc w' after) :
    MessageStep w (.readBlocking nonblock u pc) w' (after.lift (.readBlocking nonblock u)) := by
  obtain ⟨hmode, hready⟩ := hhere
  cases h with
  | ready he =>
      exact .still hdev hdel ⟨rfl, rfl, rfl, rfl, rfl, rfl⟩ rfl rfl ⟨hmode, fun _ => he⟩
  | wait hw => exact .wait hdev hdel ⟨hmode, hready⟩ hw (.readBlocking ..)
  | consume =>
      rcases consumeStep_cases (hdev.blockingDev hmode) (hready rfl) u with
        ⟨out, hs⟩ | ⟨dev, message, hd, hq, hs⟩
      · rw [hs]
        exact .still hdev hdel ⟨rfl, rfl, rfl, rfl, rfl, rfl⟩ rfl rfl ⟨hmode, nofun⟩
      · rw [hs]
        refine ⟨hd.wellformed, hdel.consumed hq rfl, ⟨hd.mode, nofun⟩, fun there hside hthere => ?_⟩
        exact hthere.locked hmode hd (hside.lock rfl) hside.owned
  | lockSignal | unlockError | wake =>
      exact .still hdev hdel ⟨rfl, rfl, rfl, rfl, rfl, rfl⟩ rfl rfl trivial
  | lock | again | sleep | unlockSleep | unlockOk =>
      exact .still hdev hdel ⟨rfl, rfl, rfl, rfl, rfl, rfl⟩ rfl rfl ⟨hmode, nofun⟩

theorem WriteMove.message_step {nonblock : Bool} {u : UserWrite} {pc : WritePc}
    {after : Next (UserWrite × WritePc)} (hdev : Wellformed w.dev) (hdel : w.Delivered)
    (hhere : (Local.writeBlocking nonblock u pc).Relies w)
    (h : WriteMove nonblock u me w pc w' after) :
    MessageStep w (.writeBlocking nonblock u pc) w'
      (after.lift fun (u, pc) => .writeBlocking nonblock u pc) := by
  obtain ⟨hmode, hfits, hroom⟩ := hhere
  cases h with
  | clamp =>
      refine .still hdev hdel ⟨rfl, rfl, rfl, rfl, rfl, rfl⟩ rfl rfl ⟨hmode, fun _ => ?_, nofun⟩
      rw [clamp_count]
      exact Nat.min_le_right _ _
  | ready he =>
      exact .still hdev hdel ⟨rfl, rfl, rfl, rfl, rfl, rfl⟩ rfl rfl ⟨hmode, hfits, fun _ => he⟩
  | wait hw => exact .wait hdev hdel ⟨hmode, hfits, hroom⟩ hw (.writeBlocking ..)
  | produce =>
      rcases produceStep_cases (hdev.blockingDev hmode) (hroom rfl) u (hfits rfl) with
        ⟨dev, hd, hq, hs⟩ | ⟨dev, hd, hq, -, hs⟩
      · rw [hs]
        refine ⟨hd.wellformed, hdel.of_eq rfl hq, ⟨hd.mode, nofun, nofun⟩,
          fun there hside hthere => ?_⟩
        exact hthere.locked hmode hd (hside.lock rfl) hside.owned
      · rw [hs]
        refine ⟨hd.wellformed, hdel.produced hq, ⟨hd.mode, nofun, nofun⟩,
          fun there hside hthere => ?_⟩
        exact hthere.locked hmode hd (hside.lock rfl) hside.owned
  | lock | again | unlockOk =>
      exact .still hdev hdel ⟨rfl, rfl, rfl, rfl, rfl, rfl⟩ rfl rfl ⟨hmode, nofun, nofun⟩
  | sleep | unlockSleep | relock =>
      exact .still hdev hdel ⟨rfl, rfl, rfl, rfl, rfl, rfl⟩ rfl rfl ⟨hmode, hfits, nofun⟩
  | lockSignal | relockSignal | unlockError | wake =>
      exact .still hdev hdel ⟨rfl, rfl, rfl, rfl, rfl, rfl⟩ rfl rfl trivial

-- A lock-free transfer, seen by the transfer on the other side of the ring.
theorem SpscStep.message_step {roles : Roles} (hok : RingOk w) (hhere : here.SpscOk roles w me)
    (hspsc : here.path = some .SPSC)
    (hwriter : here.spscWriter = false → roles.producer ≠ me)
    (hreader : here.spscReader = false → roles.consumer ≠ me)
    (hnext : RingOk w' → next.Relies w') (h : SpscStep roles me w here w' next) :
    MessageStep w here w' next := by
  have hring := h.effect.ringOk hok hhere
  have hnot (rq : ResizeArg) (ptr : Nat) (hswap : here = .resize rq (.swap ptr)) : False := by
    rw [hswap] at hspsc
    cases hspsc
  refine ⟨hring.wellformed, hring.delivered, hnext hring, fun there hside hthere => ?_⟩
  cases there with
  | readBlocking | writeBlocking => cases hok.mode.symm.trans hthere.1
  | readSpsc =>
      have hne : roles.consumer ≠ me :=
        hreader (Bool.eq_false_iff.mpr fun hr => Bool.false_ne_true (hside.reader hr).symm)
      exact ⟨hring.mode, h.effect.consumerOk hne hok (fun rq ptr hs => (hnot rq ptr hs).elim)
        hthere.2⟩
  | writeSpsc =>
      have hne : roles.producer ≠ me :=
        hwriter (Bool.eq_false_iff.mpr fun hw => Bool.false_ne_true (hside.writer hw).symm)
      exact ⟨hring.mode, h.effect.producerOk hne hhere (fun rq ptr hs => (hnot rq ptr hs).elim)
        hthere.2⟩
  | resize =>
      exact ResizePc.Prepared.of_arrays hthere fun ptr ho =>
        h.arrays ptr (hside.owned ptr ho).1 (hside.owned ptr ho).2
  | idle | readEntry | writeEntry | smode | reset | getstats | poll | done => trivial

theorem SpscReadMove.message_step {nonblock : Bool} {u : UserRead} {pc : SpscReadPc}
    {after : Next SpscReadPc} (hdev : Wellformed w.dev) (hdel : w.Delivered)
    (hhere : (Local.readSpsc nonblock u pc).Relies w)
    (h : SpscReadMove nonblock u me w pc w' after) :
    MessageStep w (.readSpsc nonblock u pc) w' (after.lift (.readSpsc nonblock u)) := by
  have hok := ringOk_of_wellformed hdev hhere.1 hdel
  have hstep : SpscStep ⟨me + 1, me, fun _ => True⟩ me w (.readSpsc nonblock u pc) w'
      (after.lift (.readSpsc nonblock u)) := h.spsc_step hok rfl hhere.2
  refine hstep.message_step hok ⟨rfl, hhere.2⟩ rfl (fun _ => Nat.succ_ne_self me) nofun ?_
  intro hring
  rcases after with pc | ret
  · exact ⟨hring.mode, hstep.next.2⟩
  · trivial

theorem SpscWriteMove.message_step {nonblock : Bool} {u : UserWrite} {pc : SpscWritePc}
    {after : Next (UserWrite × SpscWritePc)} (hdev : Wellformed w.dev) (hdel : w.Delivered)
    (hhere : (Local.writeSpsc nonblock u pc).Relies w)
    (h : SpscWriteMove nonblock u me w pc w' after) :
    MessageStep w (.writeSpsc nonblock u pc) w'
      (after.lift fun (u, pc) => .writeSpsc nonblock u pc) := by
  have hok := ringOk_of_wellformed hdev hhere.1 hdel
  have hstep : SpscStep ⟨me, me + 1, fun _ => True⟩ me w (.writeSpsc nonblock u pc) w'
      (after.lift fun (u, pc) => .writeSpsc nonblock u pc) := h.spsc_step hok rfl hhere.2
  refine hstep.message_step hok ⟨rfl, hhere.2⟩ rfl nofun (fun _ => Nat.succ_ne_self me) ?_
  intro hring
  rcases after with pc | ret
  · exact ⟨hring.mode, hstep.next.2⟩
  · trivial

end Transfers

section Ioctls

variable {w w' : World} {here next : Local} {me : Nat}

theorem ResizeArg.Valid.wellformed {rq : ResizeArg} {slots : List Slot} (h : rq.Valid)
    (dev : Dev) (hslots : slots = List.replicate rq.numBuffers ⟨List.replicate rq.bufferSize 0, 0⟩)
    (hpower : dev.mode = .SPSC → isPowerOf2 rq.numBuffers = true) :
    Wellformed (dev.resized rq slots) ∧ queue (dev.resized rq slots) = [] := by
  have hreset : Discipline (dev.resized rq slots) ∧ queue (dev.resized rq slots) = [] :=
    discipline_of_reset h.num_pos (fun hm => (isPowerOf2_iff _).mp (hpower hm)) rfl rfl rfl rfl
  exact ⟨⟨h.geometry dev hslots, hreset.1⟩, hreset.2⟩

-- What the others rely on after a RESIZE of the empty ring.
theorem Local.Relies.resized {there : Local} {rq : ResizeArg} {ptr : Nat} (hrq : rq.Valid)
    (hempty : occupancy w.dev = 0)
    (hpower : w.dev.mode = .SPSC → isPowerOf2 rq.numBuffers = true)
    (hside : Alongside w (.resize rq (.swap ptr)) there) (h : there.Relies w) :
    there.Relies (w.install (w.dev.resized rq (w.array ptr)) ptr) := by
  have hlock : there.holds = false := hside.lock rfl
  have hfits := hside.fits rq ptr rfl hempty
  have hdisturbed := Local.not_disturbed (hside.clear rq ptr rfl hempty) hfits
  cases there with
  | readBlocking nonblock u pc =>
      refine ⟨h.1, ?_⟩
      rintro rfl
      cases hlock
  | writeBlocking nonblock u pc =>
      refine ⟨h.1, fun hun => hfits u.count ?_, ?_⟩
      · unfold Local.clamped
        exact if_pos hun
      · rintro rfl
        cases hlock
  | readSpsc nonblock u pc =>
      have hdepth : depth w.dev.ring.prodIdx w.dev.ring.consIdx = 0 := by
        unfold occupancy at hempty
        rw [h.1] at hempty
        exact hempty
      exact ⟨h.1, h.2.resized w.dev hdepth hdisturbed⟩
  | writeSpsc nonblock u pc =>
      exact ⟨h.1, .resized w.dev ⟨hrq, (isPowerOf2_iff _).mp (hpower h.1)⟩ hdisturbed⟩
  | resize =>
      exact ResizePc.Prepared.of_arrays h fun other _ => array_install w _ ptr other rfl
  | idle | readEntry | writeEntry | smode | reset | getstats | poll | done => trivial

theorem ResizeMove.message_step {rq : ResizeArg} {pc : ResizePc} {after : Next ResizePc}
    (hdev : Wellformed w.dev) (hdel : w.Delivered) (hlt : w.slotsPtr < w.nextPtr)
    (hhere : pc.Prepared w rq)
    (hpower : ∀ ptr, pc = .swap ptr → occupancy w.dev = 0 → w.dev.mode = .SPSC →
      isPowerOf2 rq.numBuffers = true)
    (h : ResizeMove rq me w pc w' after) :
    MessageStep w (.resize rq pc) w' (after.lift (.resize rq)) := by
  cases h with
  | accept hcheck =>
      have hvalid : rq.Valid := resizeCheck_valid hcheck
      exact .still hdev hdel ⟨rfl, rfl, rfl, rfl, rfl, rfl⟩ rfl rfl hvalid
  | @alloc slots halloc =>
      refine .quiet hdev hdel rfl rfl (fun ptr _ hptr => ?_) rfl (.alloc hhere hlt halloc)
      rw [array_alloc w _ hlt, if_neg (Nat.ne_of_lt hptr)]
  | lock => exact .still hdev hdel ⟨rfl, rfl, rfl, rfl, rfl, rfl⟩ rfl rfl hhere
  | @swap ptr hempty =>
      obtain ⟨hrq, hslots⟩ := hhere
      obtain ⟨hnew, hq⟩ := hrq.wellformed w.dev hslots (hpower ptr rfl hempty)
      refine ⟨hnew, hdel.of_eq rfl ?_, trivial, fun there hside hthere => ?_⟩
      · rw [hdev.queue_eq_nil hempty]
        exact hq
      · exact hthere.resized hrq hempty (hpower ptr rfl hempty) hside
  | busy | unlockBusy | unlock =>
      exact .still hdev hdel ⟨rfl, rfl, rfl, rfl, rfl, rfl⟩ rfl rfl trivial
  | freeOld | reject | nomem | freeNew | wake =>
      exact .still hdev hdel ⟨rfl, rfl, rfl, rfl, rfl, rfl⟩ rfl rfl trivial

-- No transfer is under way when the mode of the empty ring is switched.
theorem Local.Relies.switched {there : Local} {dev : Dev} (hpath : there.path = none)
    (harrays : ∀ ptr, there.owned = some ptr → ptr ≠ w.slotsPtr) (h : there.Relies w) :
    there.Relies { w with dev := dev } := by
  cases there with
  | readBlocking | writeBlocking | readSpsc | writeSpsc => cases hpath
  | resize =>
      refine ResizePc.Prepared.of_arrays h fun ptr ho => ?_
      simp only [World.array, if_neg (harrays ptr ho)]
  | idle | readEntry | writeEntry | smode | reset | getstats | poll | done => trivial

theorem SmodeMove.message_step {arg : SmodeArg} {pc : SmodePc} {after : Next SmodePc}
    (hdev : Wellformed w.dev) (hdel : w.Delivered) (h : SmodeMove arg me w pc w' after) :
    MessageStep w (.smode arg pc) w' (after.lift (.smode arg)) := by
  cases h with
  | @switch mode hempty hpower =>
      have hreset : Discipline (w.dev.switched mode) ∧ queue (w.dev.switched mode) = [] :=
        discipline_of_reset hdev.geometry.num_pos (fun hm => (isPowerOf2_iff _).mp (hpower hm))
          rfl rfl rfl rfl
      refine ⟨⟨hdev.geometry.of_eq rfl rfl rfl, hreset.1⟩, hdel.of_eq rfl ?_, trivial,
        fun there hside hthere => ?_⟩
      · rw [hdev.queue_eq_nil hempty]
        exact hreset.2
      · exact hthere.switched (hside.quiet arg mode rfl hempty) fun ptr ho =>
          (hside.owned ptr ho).1
  | reject | accept | lock | refuse | unlock =>
      exact .still hdev hdel ⟨rfl, rfl, rfl, rfl, rfl, rfl⟩ rfl rfl trivial

theorem Move.message_step {choice : Choice} (hdev : Wellformed w.dev) (hdel : w.Delivered)
    (hlt : w.slotsPtr < w.nextPtr) (hhere : here.Relies w)
    (hpower : ∀ rq ptr, here = .resize rq (.swap ptr) → occupancy w.dev = 0 →
      w.dev.mode = .SPSC → isPowerOf2 rq.numBuffers = true)
    (h : Move me w choice here w' next) : MessageStep w here w' next := by
  cases h with
  | @enter _ request =>
      refine .still hdev hdel ⟨rfl, rfl, rfl, rfl, rfl, rfl⟩ rfl rfl ?_
      cases request <;> trivial
  | readSampleSpsc hm =>
      exact .still hdev hdel ⟨rfl, rfl, rfl, rfl, rfl, rfl⟩ rfl rfl ⟨hm, trivial⟩
  | readSampleBlocking hm =>
      exact .still hdev hdel ⟨rfl, rfl, rfl, rfl, rfl, rfl⟩ rfl rfl ⟨hm, nofun⟩
  | writeSampleSpsc hm =>
      exact .still hdev hdel ⟨rfl, rfl, rfl, rfl, rfl, rfl⟩ rfl rfl ⟨hm, trivial⟩
  | writeSampleBlocking hm =>
      exact .still hdev hdel ⟨rfl, rfl, rfl, rfl, rfl, rfl⟩ rfl rfl ⟨hm, nofun, nofun⟩
  | readBlocking h => exact h.message_step hdev hdel hhere
  | writeBlocking h => exact h.message_step hdev hdel hhere
  | readSpsc h => exact h.message_step hdev hdel hhere
  | writeSpsc h => exact h.message_step hdev hdel hhere
  | resize h =>
      exact h.message_step hdev hdel hlt hhere fun ptr hpc => hpower _ ptr (by rw [hpc])
  | smode h => exact h.message_step hdev hdel
  | reset h =>
      cases h with
      | @store field =>
          refine .still hdev hdel (resetStore_sameLayout w field) (resetStore_contents _ _) rfl ?_
          dsimp only [Next.lift]
          trivial
      | lock | unlock =>
          exact .still hdev hdel ⟨rfl, rfl, rfl, rfl, rfl, rfl⟩ rfl rfl trivial
  | getstats h =>
      cases h with
      | lock | loadSpsc | loadBlocking | occ =>
          exact .still hdev hdel ⟨rfl, rfl, rfl, rfl, rfl, rfl⟩ rfl rfl trivial
      | unlock =>
          refine .still hdev hdel ⟨rfl, rfl, rfl, rfl, rfl, rfl⟩ rfl rfl ?_
          dsimp only [Next.lift]
          trivial
  | poll h =>
      cases h <;> exact .still hdev hdel ⟨rfl, rfl, rfl, rfl, rfl, rfl⟩ rfl rfl trivial

end Ioctls

end Kbuf
