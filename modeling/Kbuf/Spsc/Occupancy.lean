import Kbuf.Machine.Watch
import Kbuf.Spsc.Delivery

namespace Kbuf

open Interleaving FreeRunning

section Definitions

-- The `prod_idx` that a process inside kbuf_occupancy has loaded.
def sampling : Local ⊕ Watch → Option (BitVec 32)
  | .inl (.getstats _ (.occ _ prod)) => some prod
  | .inr (.occ _ (.cons prod)) => some prod
  | _ => none

-- A consumer that publishes does not pass an index that somebody has sampled.
def NoOvertake (s : WatchedSystem) (act : Act WatchChoice) : Prop :=
  ∀ nonblock u f, s.locals act.pid = .inl (.readSpsc nonblock u (.publish f)) →
    ∀ q prod, sampling (s.locals q) = some prod → f.cons ≠ prod

-- A restriction on the calls that are started. Anybody may watch.
def WatchedStarting (ok : Nat → Request → Prop) (_ : WatchedSystem) (act : Act WatchChoice) :
    Prop :=
  ∀ request, act.choice = .call (.start request) → ok act.pid request

def Answer.InRange (num : Nat) : Answer → Prop
  | .status shown =>
      shown.totalSlots = num ∧ shown.fullSlots.toNat ≤ num ∧
        shown.freeSlots.toNat = num - shown.fullSlots.toNat
  | .depth occ => occ.toNat ≤ num

-- Every value taken from kbuf_occupancy so far is a possible depth.
def InRange (dev : Dev) : Local ⊕ Watch → Prop
  | .inl (.getstats _ (.occ stats prod)) =>
      stats.numBuffers = dev.numBuffers ∧ depth prod dev.consIdx ≤ dev.numBuffers
  | .inl (.getstats _ (.unlock stats)) => stats.curCount ≤ stats.numBuffers
  | .inl (.done (.stats (.ok stats))) => stats.curCount ≤ stats.numBuffers
  | .inr (.occ _ (.cons prod)) => depth prod dev.consIdx ≤ dev.numBuffers
  | .inr (.got _ occ) => occ.toNat ≤ dev.numBuffers
  | .inr (.unlock answer) => answer.InRange dev.numBuffers
  | .inr (.returned answer) => answer.InRange dev.numBuffers
  | _ => True

structure OccupancyInv (roles : Roles) (s : WatchedSystem) : Prop where
  spsc : SpscInv roles (coreOf s)
  inRange : ∀ p, InRange s.shared.dev (s.locals p)

end Definitions

section Frames

variable {roles : Roles} {me : Nat} {w w' : World} {here next : Local}

theorem SpscInv.rest {s : System} (hinv : SpscInv roles s) (p : Nat) (lock : Option Nat) :
    SpscInv roles (s.put p ({ s.shared with lock := lock }, .idle)) where
  own := hinv.own.put hinv.own.slotsPtr_lt hinv.own.slotsPtr_live (fun _ => nofun)
    (fun _ => nofun) fun _ _ _ ho => ⟨(hinv.own.owned ho).lt, (hinv.own.owned ho).ne,
      (hinv.own.owned ho).live⟩
  ring := ⟨hinv.ring.mode, hinv.ring.geometry, hinv.ring.ring, hinv.ring.delivered.of_eq rfl rfl⟩
  local_ok := State.forall_put
    (P := fun q (here : Local) => here.SpscOk roles { s.shared with lock := lock } q) trivial
    fun q _ => by
      have hq := hinv.local_ok q
      generalize s.locals q = there at hq
      cases there with
      | resize rq pc =>
          refine ⟨hq.1, ?_⟩
          cases pc <;> exact hq.2
      | idle | readEntry | readBlocking | readSpsc | writeEntry | writeBlocking | writeSpsc
      | smode | reset | getstats | poll | done => exact hq

-- Of all that a pair of users does, only the publishing step of a read moves
-- `cons_idx`, and nothing changes the number of slots.
theorem Move.index_effect {producer consumer : Nat} {choice : Choice}
    (hhere : here.SpscOk (Roles.pair producer consumer) w me) (h : Move me w choice here w' next) :
    w'.dev.numBuffers = w.dev.numBuffers ∧
      (w'.dev.consIdx = w.dev.consIdx ∨
        ∃ nonblock u f, here = .readSpsc nonblock u (.publish f) ∧ f.cons = w.dev.consIdx ∧
          0 < depth w.dev.prodIdx w.dev.consIdx ∧ w'.dev.consIdx = w.dev.consIdx + 1) := by
  cases h with
  | @readSpsc _ nonblock u _ _ _ h =>
      cases h with
      | @publish f =>
          obtain ⟨-, hd, -⟩ := hhere
          have hcons : f.cons = w.dev.consIdx := hd.cons
          refine ⟨rfl, Or.inr ⟨nonblock, u, f, rfl, hcons, hd.ready, ?_⟩⟩
          dsimp only
          rw [hcons]
      | wait hw => exact ⟨by rw [hw.dev_eq], Or.inl (by rw [hw.dev_eq])⟩
      | empty | again | block | ready | sleep | consume | len | copyByte | copyFault | copyDone
      | bytesLoad | bytesStore | msgsLoad | msgsStore | trace | wake => exact ⟨rfl, Or.inl rfl⟩
  | writeSpsc h =>
      cases h with
      | wait hw => exact ⟨by rw [hw.dev_eq], Or.inl (by rw [hw.dev_eq])⟩
      | clamp | full | again | block | ready | sleep | produce | copyByte | copyFault | copyDone
      | setLen | publish | bytesLoad | bytesStore | msgsLoad | msgsStore | occ | peakHigher
      | peakKept | peakStore | wake => exact ⟨rfl, Or.inl rfl⟩
  | reset h =>
      cases h with
      | @store field =>
          obtain ⟨_, _, _, _, _, _, _, hframe⟩ := resetStore_frame w.dev field
          exact ⟨by rw [hframe], Or.inl (by rw [hframe])⟩
      | lock | unlock => exact ⟨rfl, Or.inl rfl⟩
  | resize => exact hhere.1.elim
  | readBlocking | writeBlocking | smode => exact hhere.elim
  | getstats h | poll h => cases h <;> exact ⟨rfl, Or.inl rfl⟩
  | enter | readSampleSpsc | readSampleBlocking | writeSampleSpsc | writeSampleBlocking =>
      exact ⟨rfl, Or.inl rfl⟩

-- A sampled index stays in range while `cons_idx` does not pass it.
theorem InRange.other {there : Local ⊕ Watch} (h : InRange w.dev there)
    (hnum : w'.dev.numBuffers = w.dev.numBuffers)
    (hcons : w'.dev.consIdx = w.dev.consIdx ∨
      w'.dev.consIdx = w.dev.consIdx + 1 ∧
        ∀ prod, sampling there = some prod → w.dev.consIdx ≠ prod) :
    InRange w'.dev there := by
  have hdepth (prod : BitVec 32) (hs : sampling there = some prod)
      (hle : depth prod w.dev.consIdx ≤ w.dev.numBuffers) :
      depth prod w'.dev.consIdx ≤ w'.dev.numBuffers := by
    rw [hnum]
    rcases hcons with hsame | ⟨hnext, hne⟩
    · rw [hsame]
      exact hle
    · have hpos : 1 ≤ depth prod w.dev.consIdx :=
        Nat.pos_of_ne_zero fun hz => hne prod hs ((depth_eq_zero_iff _ _).mp hz).symm
      have hadvance : depth prod (w.dev.consIdx + 1) = depth prod w.dev.consIdx - 1 :=
        depth_advance_tail prod w.dev.consIdx 1 hpos
      rw [hnext, hadvance]
      omega
  unfold InRange at h ⊢
  split at h
  · exact ⟨hnum ▸ h.1, hdepth _ rfl h.2⟩
  · exact h
  · exact h
  · exact hdepth _ rfl h
  · exact hnum ▸ h
  · exact hnum ▸ h
  · exact hnum ▸ h
  · trivial

end Frames

section Steps

variable {me : Nat} {w w' : World}

-- The indices are in range of each other when the second is loaded at once.
theorem RingOk.depth_le (hok : RingOk w) : depth w.dev.prodIdx w.dev.consIdx ≤ w.dev.numBuffers :=
  hok.ring.depth_le

theorem GetstatsMove.inRange {fault : Bool} {pc : GetstatsPc} {after : Next GetstatsPc}
    (hok : RingOk w) (h : InRange w.dev (.inl (.getstats fault pc)))
    (hmove : GetstatsMove fault me w pc w' after) :
    InRange w'.dev (.inl (after.lift (.getstats fault))) := by
  cases hmove with
  | lock => trivial
  | loadSpsc => exact ⟨rfl, hok.depth_le⟩
  | loadBlocking hm =>
      rw [hok.mode] at hm
      cases hm
  | occ =>
      obtain ⟨hnum, hle⟩ := h
      exact hnum ▸ hle
  | unlock =>
      cases fault with
      | true => trivial
      | false => exact h

theorem WatchMove.inRange {pc next : Watch} (hok : RingOk w) (h : InRange w.dev (.inr pc))
    (hmove : WatchMove me w pc w' next) : InRange w'.dev (.inr next) := by
  cases hmove with
  | lock => trivial
  | loadSpsc => exact hok.depth_le
  | loadBlocking hm =>
      rw [hok.mode] at hm
      cases hm
  | cons => exact h
  | @got caller occ =>
      have hle : occ.toNat ≤ w.dev.numBuffers := h
      have hlt : w.dev.numBuffers < 2 ^ 32 := hok.geometry.num_lt
      have hnum : (BitVec.ofNat 32 w.dev.numBuffers).toNat = w.dev.numBuffers := by
        rw [BitVec.toNat_ofNat, Nat.mod_eq_of_lt hlt]
      cases caller with
      | procShow =>
          refine ⟨rfl, hle, ?_⟩
          have hsub := BitVec.toNat_sub_of_le (x := BitVec.ofNat 32 w.dev.numBuffers) (y := occ)
            (by rw [BitVec.le_def, hnum]; exact hle)
          rw [hnum] at hsub
          exact hsub
      | resize | smode => exact hle
  | unlock => exact h

-- A process of the pair, or one that resets or polls, holds no sample.
theorem Move.inRange {producer consumer : Nat} {choice : Choice} {here next : Local}
    (hok : RingOk w) (hhere : here.SpscOk (Roles.pair producer consumer) w me)
    (h : InRange w.dev (.inl here)) (hmove : Move me w choice here w' next) :
    InRange w'.dev (.inl next) := by
  cases hmove with
  | @enter _ request => cases request <;> trivial
  | getstats hmove => exact hmove.inRange hok h
  | readSpsc h =>
      cases h with
      | @wait _ _ out => cases out <;> trivial
      | empty | again | block | ready | sleep | consume | len | copyByte | copyFault | copyDone
      | publish | bytesLoad | bytesStore | msgsLoad | msgsStore | trace | wake => trivial
  | writeSpsc h =>
      cases h with
      | @wait _ _ out => cases out <;> trivial
      | clamp | full | again | block | ready | sleep | produce | copyByte | copyFault | copyDone
      | setLen | publish | bytesLoad | bytesStore | msgsLoad | msgsStore | occ | peakHigher
      | peakKept | peakStore | wake => trivial
  | reset h =>
      cases h with
      | store => dsimp only [Next.lift]; trivial
      | lock | unlock => trivial
  | poll h => cases h <;> trivial
  | resize => exact hhere.1.elim
  | readBlocking | writeBlocking | smode => exact hhere.elim
  | readSampleSpsc | readSampleBlocking | writeSampleSpsc | writeSampleBlocking => trivial

end Steps

section Runs

variable {producer consumer : Nat} {dev : Dev} {s t : WatchedSystem}

theorem occupancyInv_step {act : Act WatchChoice}
    (hinv : OccupancyInv (Roles.pair producer consumer) s)
    (hstart : WatchedStarting (Roles.pair producer consumer).allows s act)
    (hno : NoOvertake s act) (h : step watched s act = some t) :
    OccupancyInv (Roles.pair producer consumer) t := by
  have hring : RingOk s.shared := hinv.spsc.ring
  constructor
  · rcases coreOf_step h with ⟨choice, hchoice, hstep⟩ | ⟨lock, hlock⟩
    · refine hinv.spsc.pair_step (fun request hrequest => ?_) hstep
      exact hstart request (hchoice.trans (congrArg WatchChoice.call hrequest))
    · rw [hlock]
      exact hinv.spsc.rest act.pid lock
  · obtain ⟨w, next, hmove, rfl⟩ := watched_step_move h
    have hself := hinv.inRange act.pid
    have hhere : (core (s.locals act.pid)).SpscOk (Roles.pair producer consumer) s.shared act.pid :=
      hinv.spsc.local_ok act.pid
    have hovertake : ∀ nonblock u f, s.locals act.pid = .inl (.readSpsc nonblock u (.publish f)) →
        ∀ q prod, sampling (s.locals q) = some prod → f.cons ≠ prod := hno
    generalize s.locals act.pid = here at hmove hself hhere hovertake
    generalize act.choice = choice at hmove
    cases hmove with
    | call hd =>
        have hdriver := driver_move hd
        obtain ⟨hnum, hcons⟩ := hdriver.index_effect hhere
        refine State.forall_put (P := fun _ here => InRange w.dev here)
          (hdriver.inRange hring hhere hself) fun q _ => (hinv.inRange q).other hnum ?_
        rcases hcons with hsame | ⟨nonblock, u, f, rfl, hf, -, hnext⟩
        · exact Or.inl hsame
        · refine Or.inr ⟨hnext, fun prod hs => ?_⟩
          rw [← hf]
          exact hovertake nonblock u f rfl q prod hs
    | @enter answer request =>
        refine State.forall_put (P := fun _ here => InRange s.shared.dev here) ?_
          fun q _ => hinv.inRange q
        cases request <;> trivial
    | watch =>
        exact State.forall_put (P := fun _ here => InRange s.shared.dev here) trivial
          fun q _ => hinv.inRange q
    | go hw =>
        have hnext := hw.inRange hring hself
        obtain ⟨lock, rfl⟩ := hw.world
        exact State.forall_put (P := fun _ here => InRange s.shared.dev here) hnext
          fun q _ => hinv.inRange q

theorem occupancyInv_boot (hdev : Wellformed dev) (hmode : dev.mode = .SPSC)
    (hempty : queue dev = []) :
    OccupancyInv (Roles.pair producer consumer) (watchedBoot dev) where
  spsc := spscInv_boot hdev hmode hempty
  inRange _ := trivial

-- As long as no consumer passes a sampled `prod_idx`, every value of
-- kbuf_occupancy lies between zero and the number of slots.
theorem occupancy_in_range {acts : List (Act WatchChoice)} (hdev : Wellformed dev)
    (hmode : dev.mode = .SPSC) (hempty : queue dev = [])
    (hok : Along watched (fun s act =>
      WatchedStarting (Roles.pair producer consumer).allows s act ∧ NoOvertake s act)
      (watchedBoot dev) acts)
    (hrun : run watched (watchedBoot dev) acts = some s) :
    (∀ p caller occ, s.locals p = .inr (.got caller occ) →
        occ.toNat ≤ s.shared.dev.numBuffers) ∧
      (∀ p stats, s.locals p = .inl (.done (.stats (.ok stats))) →
        stats.curCount ≤ stats.numBuffers) ∧
      ∀ p status, s.locals p = .inr (.returned (.status status)) →
        status.fullSlots.toNat ≤ status.totalSlots ∧
          status.freeSlots.toNat = status.totalSlots - status.fullSlots.toNat := by
  have hinv : OccupancyInv (Roles.pair producer consumer) s :=
    run_invariant (fun _ _ _ hinv hok h => occupancyInv_step hinv hok.1 hok.2 h)
      (occupancyInv_boot hdev hmode hempty) hok hrun
  refine ⟨fun p caller occ hp => ?_, fun p stats hp => ?_, fun p status hp => ?_⟩
  · have hrange := hinv.inRange p
    rw [hp] at hrange
    exact hrange
  · have hrange := hinv.inRange p
    rw [hp] at hrange
    exact hrange
  · have hrange := hinv.inRange p
    rw [hp] at hrange
    obtain ⟨htotal, hfull, hfree⟩ := hrange
    rw [htotal]
    exact ⟨hfull, hfree⟩

end Runs

section Overtaking

def calls (p steps : Nat) : List (Act WatchChoice) := List.replicate steps ⟨p, .call .go⟩

def writeOne : List (Act WatchChoice) := ⟨0, .call (.start (.write true ⟨[7], 1⟩))⟩ :: calls 0 17

def readOne : List (Act WatchChoice) := ⟨1, .call (.start (.read true ⟨1, 1⟩))⟩ :: calls 1 14

-- The statistics are taken, and /proc is read, while a message passes through the
-- ring between the two loads of kbuf_occupancy.
def statsAcrossHandover : List (Act WatchChoice) :=
  ⟨2, .call (.start (.getstats false))⟩ :: calls 2 2 ++ (writeOne ++ readOne) ++ calls 2 2

def procAcrossHandover : List (Act WatchChoice) :=
  ⟨2, .watch .procShow⟩ :: calls 2 2 ++ (writeOne ++ readOne) ++ calls 2 3

-- The message is there before the first load, and is read before the second.
def statsAcrossRead : List (Act WatchChoice) :=
  writeOne ++ ⟨2, .call (.start (.getstats false))⟩ :: calls 2 2 ++ readOne ++ calls 2 2

def startsAllowed (act : Act WatchChoice) : Bool :=
  match act.choice with
  | .call (.start (.read ..)) => act.pid = 1
  | .call (.start (.write ..)) => act.pid = 0
  | .call (.start (.resize _)) => false
  | .call (.start (.smode _)) => false
  | _ => true

theorem watchedStarting_of_all {s : WatchedSystem} {acts : List (Act WatchChoice)}
    (h : acts.all startsAllowed = true) :
    Along watched (WatchedStarting (Roles.pair 0 1).allows) s acts := by
  refine along_of_mem fun _ act hact request hr => allows_of_pairAllows ?_
  have hallowed := List.all_eq_true.mp h act hact
  simp only [startsAllowed, hr] at hallowed
  cases request <;> exact hallowed

-- The consumer passes the index that was sampled, and the difference wraps.
theorem occupancy_wraps :
    Along watched (WatchedStarting (Roles.pair 0 1).allows) (watchedBoot (emptyDev .SPSC 1 1))
        statsAcrossHandover ∧
      (∃ s, run watched (watchedBoot (emptyDev .SPSC 1 1)) statsAcrossHandover = some s ∧
        ∃ stats, s.locals 2 = .inl (.done (.stats (.ok stats))) ∧ stats.numBuffers = 1 ∧
          stats.curCount = 4294967295) ∧
      ∃ s, run watched (watchedBoot (emptyDev .SPSC 1 1)) procAcrossHandover = some s ∧
        ∃ status, s.locals 2 = .inr (.returned (.status status)) ∧ status.totalSlots = 1 ∧
          status.fullSlots = 4294967295 ∧ status.freeSlots = 2 := by
  refine ⟨watchedStarting_of_all rfl, ?_, ?_⟩
  · obtain ⟨s, hrun, hend⟩ := Option.map_eq_some_iff.mp
      (show (run watched (watchedBoot (emptyDev .SPSC 1 1)) statsAcrossHandover).map
        (fun s => s.locals 2) =
          some (.inl (.done (.stats (.ok ⟨0, 0, 0, 0, 0, 0, 1, 1, 4294967295, 1⟩)))) from rfl)
    exact ⟨s, hrun, _, hend, rfl, rfl⟩
  · obtain ⟨s, hrun, hend⟩ := Option.map_eq_some_iff.mp
      (show (run watched (watchedBoot (emptyDev .SPSC 1 1)) procAcrossHandover).map
        (fun s => s.locals 2) =
          some (.inr (.returned (.status
            ⟨1, 1, 4294967295, 2, 1, 0, 0, .SPSC, 1, 1, 1, 1, 0, 0⟩))) from rfl)
    exact ⟨s, hrun, _, hend, rfl, rfl, rfl⟩

def noOvertakeUpTo (bound : Nat) (s : WatchedSystem) (act : Act WatchChoice) : Bool :=
  match s.locals act.pid with
  | .inl (.readSpsc _ _ (.publish f)) =>
      (List.range bound).all fun q => sampling (s.locals q) ≠ some f.cons
  | _ => true

theorem noOvertake_of_upTo {bound : Nat} {s : WatchedSystem} {act : Act WatchChoice}
    (hidle : ∀ q, bound ≤ q → s.locals q = .inl .idle) (h : noOvertakeUpTo bound s act = true) :
    NoOvertake s act := by
  intro nonblock u f hpublish q prod hs heq
  simp only [noOvertakeUpTo, hpublish, List.all_eq_true, List.mem_range, decide_eq_true_eq] at h
  by_cases hq : q < bound
  · exact h q hq (heq ▸ hs)
  · rw [hidle q (Nat.le_of_not_lt hq)] at hs
    cases hs

theorem occupancy_in_range_acrossRead :
    ∃ s stats, run watched (watchedBoot (emptyDev .SPSC 1 1)) statsAcrossRead = some s ∧
      s.locals 2 = .inl (.done (.stats (.ok stats))) ∧ stats.curCount ≤ stats.numBuffers := by
  have hdev : Wellformed (emptyDev .SPSC 1 1) :=
    emptyDev_wellformed _ _ _ (by decide) (by decide) (by decide) (by decide) fun _ => ⟨0, rfl⟩
  have hno : Along watched NoOvertake (watchedBoot (emptyDev .SPSC 1 1)) statsAcrossRead :=
    along_of_checkAlong (fun _ _ => noOvertake_of_upTo) (fun _ _ => rfl) (by decide)
      (show checkAlong watched (noOvertakeUpTo 3) _ _ = true from rfl)
  obtain ⟨s, hrun, hend⟩ := Option.map_eq_some_iff.mp
    (show (run watched (watchedBoot (emptyDev .SPSC 1 1)) statsAcrossRead).map
      (fun s => s.locals 2) =
        some (.inl (.done (.stats (.ok ⟨1, 0, 1, 0, 0, 0, 1, 1, 0, 1⟩)))) from rfl)
  obtain ⟨-, hstats, -⟩ := occupancy_in_range hdev rfl rfl
    ((watchedStarting_of_all rfl).and hno) hrun
  exact ⟨s, _, hrun, hend, hstats 2 _ hend⟩

end Overtaking

end Kbuf
