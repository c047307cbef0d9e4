import Kbuf.Machine.Log
import Kbuf.Spsc.Delivery

namespace Kbuf

open Interleaving FreeRunning

section Definitions

-- What a side still knows of its own index after it has published it, and the
-- occupancy that the producer has computed from the two.
def Local.OccOk (dev : Dev) : Local → Prop
  | .writeSpsc _ _ (.bytesLoad f) | .writeSpsc _ _ (.bytesStore f _)
  | .writeSpsc _ _ (.msgsLoad f) | .writeSpsc _ _ (.msgsStore f _) | .writeSpsc _ _ (.occ f) =>
      f.prod + 1 = dev.prodIdx
  | .writeSpsc _ _ (.peak occ) | .writeSpsc _ _ (.peakStore occ) => occ.toNat ≤ dev.numBuffers
  | .readSpsc _ _ (.bytesLoad f) | .readSpsc _ _ (.bytesStore f _)
  | .readSpsc _ _ (.msgsLoad f) | .readSpsc _ _ (.msgsStore f _) | .readSpsc _ _ (.trace f) =>
      f.cons + 1 = dev.consIdx
  | _ => True

structure PeakInv (start : Dev) (producer consumer : Nat) (s : System) : Prop where
  spsc : SpscInv (Roles.pair producer consumer) (preloaded start s)
  count_le : toUnsigned s.shared.dev.count ≤ s.shared.dev.numBuffers
  peak_le : s.shared.dev.peakCount ≤ s.shared.dev.numBuffers
  locals_ok : ∀ p, (s.locals p).OccOk s.shared.dev

end Definitions

section Steps

variable {producer consumer me : Nat} {choice : Choice} {w w' : World} {here next : Local}

-- What a step of a pair's run does to what the recorded occupancies depend on.
structure PeakStep (producer consumer me : Nat) (w w' : World) (next : Local) : Prop where
  num : w'.dev.numBuffers = w.dev.numBuffers
  count : w'.dev.count = w.dev.count
  prod : w'.dev.prodIdx = w.dev.prodIdx ∨ me = producer
  cons : w'.dev.consIdx = w.dev.consIdx ∨ me = consumer
  peak : w'.dev.peakCount ≤ w.dev.numBuffers
  next : next.OccOk w'.dev

theorem PeakStep.still (hpeak : w.dev.peakCount ≤ w.dev.numBuffers)
    (hdev : w'.dev = w.dev) (hnext : next.OccOk w.dev) :
    PeakStep producer consumer me w w' next := by
  refine ⟨?_, ?_, Or.inl ?_, Or.inl ?_, ?_, ?_⟩ <;> rw [hdev]
  · exact hpeak
  · exact hnext

theorem Waiting.occOk {wq : Wq} {out : WaitNext} {dev : Dev} (h : Waiting out wq here next) :
    next.OccOk dev := by
  cases h <;> cases out <;> trivial

theorem SpscWriteMove.peak_step {nonblock : Bool} {u : UserWrite} {pc : SpscWritePc}
    {after : Next (UserWrite × SpscWritePc)} (hme : me = producer)
    (hdepth : depth w.dev.prodIdx w.dev.consIdx ≤ w.dev.numBuffers)
    (hpeak : w.dev.peakCount ≤ w.dev.numBuffers)
    (hhere : (Local.writeSpsc nonblock u pc).OccOk w.dev)
    (h : SpscWriteMove nonblock u me w pc w' after) :
    PeakStep producer consumer me w w'
      (after.lift fun (u, pc) => .writeSpsc nonblock u pc) := by
  cases h with
  | wait hw => exact .still hpeak hw.dev_eq (Waiting.occOk (.writeSpsc nonblock u .first))
  | publish => exact ⟨rfl, rfl, Or.inr hme, Or.inl rfl, hpeak, rfl⟩
  | @occ f =>
      -- Its own index is still what it published, so this is the depth of the ring.
      have hprod : f.prod + 1 = w.dev.prodIdx := hhere
      refine .still hpeak rfl ?_
      change (f.prod + 1 - w.dev.consIdx).toNat ≤ w.dev.numBuffers
      rw [hprod]
      exact hdepth
  | peakHigher | bytesLoad | msgsLoad => exact .still hpeak rfl hhere
  | peakStore => exact ⟨rfl, rfl, Or.inl rfl, Or.inl rfl, hhere, trivial⟩
  | bytesStore | msgsStore => exact ⟨rfl, rfl, Or.inl rfl, Or.inl rfl, hpeak, hhere⟩
  | sleep | copyByte | setLen => exact ⟨rfl, rfl, Or.inl rfl, Or.inl rfl, hpeak, trivial⟩
  | clamp | full | again | block | ready | produce | copyFault | copyDone | peakKept | wake =>
      exact .still hpeak rfl trivial

theorem SpscReadMove.peak_step {nonblock : Bool} {u : UserRead} {pc : SpscReadPc}
    {after : Next SpscReadPc} (hme : me = consumer)
    (hpeak : w.dev.peakCount ≤ w.dev.numBuffers)
    (hhere : (Local.readSpsc nonblock u pc).OccOk w.dev)
    (h : SpscReadMove nonblock u me w pc w' after) :
    PeakStep producer consumer me w w' (after.lift (.readSpsc nonblock u)) := by
  cases h with
  | wait hw => exact .still hpeak hw.dev_eq (Waiting.occOk (.readSpsc nonblock u .first))
  | publish => exact ⟨rfl, rfl, Or.inl rfl, Or.inr hme, hpeak, rfl⟩
  | bytesLoad | msgsLoad => exact .still hpeak rfl hhere
  | bytesStore | msgsStore => exact ⟨rfl, rfl, Or.inl rfl, Or.inl rfl, hpeak, hhere⟩
  | sleep => exact ⟨rfl, rfl, Or.inl rfl, Or.inl rfl, hpeak, trivial⟩
  | empty | again | block | ready | consume | len | copyByte | copyFault | copyDone | trace
  | wake => exact .still hpeak rfl trivial

theorem resetStore_peak (dev : Dev) (field : Nat) (hcount : toUnsigned dev.count ≤ dev.numBuffers)
    (hpeak : dev.peakCount ≤ dev.numBuffers) :
    (resetStore dev field).peakCount ≤ dev.numBuffers := by
  unfold resetStore
  split <;> first | exact hpeak | exact hcount

theorem Move.peak_step {events : List Event}
    (hspsc : here.SpscOk (Roles.pair producer consumer) (w.after events) me)
    (hdepth : depth w.dev.prodIdx w.dev.consIdx ≤ w.dev.numBuffers)
    (hcount : toUnsigned w.dev.count ≤ w.dev.numBuffers)
    (hpeak : w.dev.peakCount ≤ w.dev.numBuffers) (hhere : here.OccOk w.dev)
    (h : Move me w choice here w' next) : PeakStep producer consumer me w w' next := by
  cases h with
  | @enter _ request _ => exact .still hpeak rfl (by cases request <;> trivial)
  | readSampleSpsc | readSampleBlocking | writeSampleSpsc | writeSampleBlocking =>
      exact .still hpeak rfl trivial
  | readSpsc h => exact h.peak_step hspsc.1 hpeak hhere
  | writeSpsc h => exact h.peak_step hspsc.1 hdepth hpeak hhere
  | reset h =>
      cases h with
      | @store field =>
          obtain ⟨_, _, _, _, _, _, _, hframe⟩ := resetStore_frame w.dev field
          refine ⟨by rw [hframe], by rw [hframe], Or.inl (by rw [hframe]),
            Or.inl (by rw [hframe]), resetStore_peak w.dev field hcount hpeak, trivial⟩
      | lock | unlock => exact .still hpeak rfl trivial
  | getstats h | poll h => cases h <;> exact .still hpeak rfl trivial
  | resize => exact hspsc.1.elim
  | readBlocking | writeBlocking | smode => exact hspsc.elim

-- What another process knows survives: only the owner of an index moves it.
theorem PeakStep.other {events : List Event} {there : Local} {p : Nat} (hne : p ≠ me)
    (hspsc : there.SpscOk (Roles.pair producer consumer) (w.after events) p)
    (hthere : there.OccOk w.dev) (h : PeakStep producer consumer me w w' next) :
    there.OccOk w'.dev := by
  have hprod (hp : p = producer) : w'.dev.prodIdx = w.dev.prodIdx := by
    rcases h.prod with heq | hme
    · exact heq
    · exact absurd (hp.trans hme.symm) hne
  have hcons (hp : p = consumer) : w'.dev.consIdx = w.dev.consIdx := by
    rcases h.cons with heq | hme
    · exact heq
    · exact absurd (hp.trans hme.symm) hne
  cases there with
  | writeSpsc nonblock u pc =>
      have hsame := hprod hspsc.1
      cases pc with
      | bytesLoad | bytesStore | msgsLoad | msgsStore | occ =>
          simp only [Local.OccOk] at hthere ⊢
          rw [hsame]
          exact hthere
      | peak | peakStore =>
          simp only [Local.OccOk] at hthere ⊢
          rw [h.num]
          exact hthere
      | _ => trivial
  | readSpsc nonblock u pc =>
      have hsame := hcons hspsc.1
      cases pc with
      | bytesLoad | bytesStore | msgsLoad | msgsStore | trace =>
          simp only [Local.OccOk] at hthere ⊢
          rw [hsame]
          exact hthere
      | _ => trivial
  | _ => trivial

end Steps

section Runs

variable {dev : Dev} {acts : List (Act Choice)} {s t : System} {producer consumer : Nat}

theorem PeakInv.depth_le (hinv : PeakInv dev producer consumer s) :
    depth s.shared.dev.prodIdx s.shared.dev.consIdx ≤ s.shared.dev.numBuffers :=
  hinv.spsc.ring.ring.depth_le

theorem peakInv_step {act : Act Choice} (hinv : PeakInv dev producer consumer s)
    (hstart : Starting (Roles.pair producer consumer).allows s act)
    (h : step driver s act = some t) : PeakInv dev producer consumer t := by
  have hspsc : SpscInv (Roles.pair producer consumer) (preloaded dev t) :=
    hinv.spsc.pair_step hstart (step_preloaded dev h)
  obtain ⟨w, next, hmove, rfl⟩ := step_move h
  have hstep : PeakStep producer consumer act.pid s.shared w next :=
    hmove.peak_step (hinv.spsc.local_ok act.pid) hinv.depth_le hinv.count_le hinv.peak_le
      (hinv.locals_ok act.pid)
  refine ⟨hspsc, ?_, ?_, ?_⟩
  · rw [State.put_shared, hstep.count, hstep.num]
    exact hinv.count_le
  · rw [State.put_shared, hstep.num]
    exact hstep.peak
  · exact State.forall_put (P := fun _ (here : Local) => here.OccOk w.dev) hstep.next
      fun p hp => hstep.other hp (hinv.spsc.local_ok p) (hinv.locals_ok p)

theorem peakInv_boot (hdev : Wellformed dev) (hmode : dev.mode = .SPSC)
    (hcount : toUnsigned dev.count ≤ dev.numBuffers) (hpeak : dev.peakCount ≤ dev.numBuffers) :
    PeakInv dev producer consumer (boot dev) where
  spsc :=
    { own := ⟨(ownInv_boot dev).1, (ownInv_boot dev).2, nofun, nofun, nofun, nofun⟩
      ring := ringOk_of_wellformed hdev hmode (delivered_preloaded dev)
      local_ok _ := trivial }
  count_le := hcount
  peak_le := hpeak
  locals_ok _ := trivial

-- Whatever a side computes from its own index, once published, and the other one is a
-- possible depth of the ring, and so is everything that peak_count ever holds.
theorem spsc_recorded_occupancy (hdev : Wellformed dev) (hmode : dev.mode = .SPSC)
    (hcount : toUnsigned dev.count ≤ dev.numBuffers) (hpeak : dev.peakCount ≤ dev.numBuffers)
    (hreq : Along driver (Starting (Roles.pair producer consumer).allows) (boot dev) acts)
    (hrun : run driver (boot dev) acts = some s) :
    (∀ p nonblock u f, s.locals p = .writeSpsc nonblock u (.occ f) →
      (f.prod + 1 - s.shared.dev.consIdx).toNat ≤ s.shared.dev.numBuffers) ∧
    (∀ p nonblock u occ, s.locals p = .writeSpsc nonblock u (.peak occ) ∨
        s.locals p = .writeSpsc nonblock u (.peakStore occ) →
      occ.toNat ≤ s.shared.dev.numBuffers) ∧
    (∀ p nonblock u f, s.locals p = .readSpsc nonblock u (.trace f) →
      (f.traced s.shared).toNat ≤ s.shared.dev.numBuffers) ∧
    s.shared.dev.peakCount ≤ s.shared.dev.numBuffers := by
  have hinv : PeakInv dev producer consumer s :=
    run_invariant (fun _ _ _ hinv hstart h => peakInv_step hinv hstart h)
      (peakInv_boot hdev hmode hcount hpeak) hreq hrun
  refine ⟨fun p nonblock u f hp => ?_, fun p nonblock u occ hp => ?_, fun p nonblock u f hp => ?_,
    hinv.peak_le⟩
  · have hok := hinv.locals_ok p
    rw [hp] at hok
    have hprod : f.prod + 1 = s.shared.dev.prodIdx := hok
    rw [hprod]
    exact hinv.depth_le
  · have hok := hinv.locals_ok p
    rcases hp with hp | hp
    · rw [hp] at hok
      exact hok
    · rw [hp] at hok
      exact hok
  · have hok := hinv.locals_ok p
    rw [hp] at hok
    have hcons : f.cons + 1 = s.shared.dev.consIdx := hok
    rw [Consuming.traced, hcons]
    exact hinv.depth_le

end Runs

-- The indices wrap, and the read is as far as its trace event while the write has still
-- to compute the occupancy.
def wrapTraced : List (Act Choice) :=
  ⟨0, .start (.write true ⟨[7, 8], 2⟩)⟩ :: proceed 0 14 ++
    ⟨1, .start (.read true ⟨4, 4⟩)⟩ :: proceed 1 13

theorem spsc_recorded_occupancy_wrapTraced :
    ∃ s f g, run driver (boot wrapDev) wrapTraced = some s ∧
      s.locals 0 = .writeSpsc true ⟨[7, 8], 2⟩ (.occ f) ∧
      s.locals 1 = .readSpsc true ⟨4, 4⟩ (.trace g) ∧
      (f.prod + 1 - s.shared.dev.consIdx).toNat ≤ s.shared.dev.numBuffers ∧
      (g.traced s.shared).toNat ≤ s.shared.dev.numBuffers ∧
      s.shared.dev.peakCount ≤ s.shared.dev.numBuffers := by
  obtain ⟨s, hrun, hend⟩ := Option.map_eq_some_iff.mp
    (show (run driver (boot wrapDev) wrapTraced).map (fun s => (s.locals 0, s.locals 1)) =
      some (.writeSpsc true ⟨[7, 8], 2⟩ (.occ ⟨0xFFFFFFFF, ⟨0, 0⟩⟩),
        .readSpsc true ⟨4, 4⟩ (.trace ⟨0xFFFFFFFF, ⟨0, 0⟩, 2, [7, 8]⟩)) from rfl)
  obtain ⟨hwriter, hreader⟩ := Prod.mk.inj hend
  obtain ⟨hocc, -, htraced, hpeak⟩ := spsc_recorded_occupancy wrapDev_wellformed rfl
    (by decide) (by decide) (starting_of_all rfl) hrun
  exact ⟨s, _, _, hrun, hwriter, hreader, hocc 0 _ _ _ hwriter, htraced 1 _ _ _ hreader, hpeak⟩

end Kbuf
