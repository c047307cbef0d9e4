import Kbuf.Machine.Span
import Kbuf.ModeSwitch.Contents

namespace Kbuf

open Interleaving

section Runs

variable {dev : Dev} {acts : List (Act Choice)} {s : System}

-- Blocking calls, resizes and switches by anybody. At every moment the device
-- counts exactly the messages that were accepted and not yet handed over, and
-- the calls return what the history says. Where no resize goes below a clamped count,
-- the reads get the messages in the order of the writes.
theorem mode_switch_keeps_messages (hdev : Wellformed dev) (hmode : dev.mode = .BLOCKING)
    (hempty : queue dev = [])
    (hok : Along driver (fun s act => SamplesBlocking s act ∧ SwitchesIdle s act) (boot dev) acts)
    (hrun : run driver (boot dev) acts = some s) :
    occupancy s.shared.dev + s.shared.received.length = s.shared.sent.length ∧
      (∀ p request start during ret, CallSpan (boot dev) acts p request start during →
        s.locals p = .done ret →
        ∃ events, s.shared.eventsOf p = start.shared.eventsOf p ++ events ∧
          ret.Recorded p request events) ∧
      (Along driver ClampedFit (boot dev) acts →
        (∀ (k count : Nat) (out : List UInt8), s.shared.received[k]? = some (count, out) →
          ∃ message, s.shared.sent[k]? = some message ∧ out = message.take count) ∧
        s.shared.sent.drop s.shared.received.length = queue s.shared.dev) := by
  have hinv : BalanceInv s :=
    run_invariant (fun _ _ _ hinv hok h => balanceInv_step hinv hok.1 hok.2 h)
      (balanceInv_boot hdev hmode hempty) hok hrun
  refine ⟨hinv.occupancy_eq, fun p request start during ret hspan hdone =>
    hspan.recorded hrun hdone, fun hfit => ?_⟩
  have hcontents : ContentsInv s :=
    run_invariant (fun _ _ _ hinv hok h => contentsInv_step hinv hok.1.1 hok.1.2 hok.2 h)
      (contentsInv_boot hdev hmode hempty) (hok.and hfit) hrun
  have hdelivered := hcontents.holding.delivered
  exact ⟨fun k count out hk => hdelivered.kth hk, hdelivered.drop_eq⟩

end Runs

-- A writer samples the blocking mode, the mode is switched, and the write goes on.
def switchUnderWriter : List (Act Choice) :=
  ⟨0, .start (.write true ⟨[7], 1⟩)⟩ :: proceed 0 1 ++
    ⟨1, .start (.smode ⟨false, 1⟩)⟩ :: proceed 1 4 ++ proceed 0 6

-- The write returns success, but the device counts no message, and the next
-- switch back finds the ring empty and drops it.
theorem stranded_message :
    ∃ s t, run driver (boot (emptyDev .BLOCKING 1 2)) switchUnderWriter = some s ∧
      s.locals 0 = .done (.size (.ok 1)) ∧ s.shared.sent = [[7]] ∧ s.shared.received = [] ∧
      occupancy s.shared.dev = 0 ∧
      run driver s (⟨1, .start (.smode ⟨false, 0⟩)⟩ :: proceed 1 4) = some t ∧
      t.locals 1 = .done (.status (.ok ())) ∧ t.shared.received = [] ∧ queue t.shared.dev = [] := by
  obtain ⟨s, hrun, hend⟩ := Option.map_eq_some_iff.mp
    (show (run driver (boot (emptyDev .BLOCKING 1 2)) switchUnderWriter).map
      (fun s => (s.locals 0, s.shared.sent, s.shared.received, occupancy s.shared.dev,
        (run driver s (⟨1, .start (.smode ⟨false, 0⟩)⟩ :: proceed 1 4)).map fun t =>
          (t.locals 1, t.shared.received, queue t.shared.dev))) =
        some (.done (.size (.ok 1)), [[7]], [], 0, some (.done (.status (.ok ())), [], []))
      from rfl)
  obtain ⟨hdone, hrest⟩ := Prod.mk.inj hend
  obtain ⟨hsent, hrest⟩ := Prod.mk.inj hrest
  obtain ⟨hreceived, hrest⟩ := Prod.mk.inj hrest
  obtain ⟨hoccupancy, hlater⟩ := Prod.mk.inj hrest
  obtain ⟨t, ht, hend⟩ := Option.map_eq_some_iff.mp hlater
  obtain ⟨hswitched, hrest⟩ := Prod.mk.inj hend
  obtain ⟨hreceived', hqueue⟩ := Prod.mk.inj hrest
  exact ⟨s, t, hrun, hdone, hsent, hreceived, hoccupancy, ht, hswitched, hreceived', hqueue⟩

def quietUpTo (bound : Nat) (s : System) (act : Act Choice) : Bool :=
  match s.locals act.pid with
  | .readEntry .. => s.shared.dev.mode = .BLOCKING
  | .writeEntry .. => s.shared.dev.mode = .BLOCKING
  | .smode _ (.switch .SPSC) => (List.range bound).all fun q => !(s.locals q).unproduced
  | _ => true

theorem quiet_of_upTo {bound : Nat} {s : System} {act : Act Choice}
    (hidle : ∀ q, bound ≤ q → s.locals q = .idle) (h : quietUpTo bound s act = true) :
    SamplesBlocking s act ∧ SwitchesIdle s act := by
  unfold quietUpTo at h
  refine ⟨⟨fun nonblock u hhere => ?_, fun nonblock u hhere => ?_⟩, fun arg dev hhere _ q => ?_⟩
  · simpa [hhere] using h
  · simpa [hhere] using h
  · simp only [hhere, List.all_eq_true, List.mem_range] at h
    by_cases hq : q < bound
    · simpa using h q hq
    · rw [hidle q (Nat.le_of_not_lt hq)]
      rfl

-- A switch is refused while the message is queued, and goes through once it has been read.
def switchAfterRead : List (Act Choice) :=
  ⟨0, .start (.write true ⟨[7], 1⟩)⟩ :: proceed 0 7 ++
    ⟨2, .start (.smode ⟨false, 1⟩)⟩ :: proceed 2 4 ++
    ⟨1, .start (.read true ⟨4, 4⟩)⟩ :: proceed 1 6 ++
    ⟨2, .start (.smode ⟨false, 1⟩)⟩ :: proceed 2 4

theorem mode_switch_keeps_messages_afterRead :
    ∃ s, run driver (boot (emptyDev .BLOCKING 1 2)) switchAfterRead = some s ∧
      s.shared.dev.mode = .SPSC ∧ s.locals 1 = .done (.bytes (.ok 1) [7]) ∧
      occupancy s.shared.dev + s.shared.received.length = s.shared.sent.length ∧
      ∃ message, s.shared.sent[0]? = some message ∧ [7] = message.take 4 := by
  obtain ⟨s, hrun, hend⟩ := Option.map_eq_some_iff.mp
    (show (run driver (boot (emptyDev .BLOCKING 1 2)) switchAfterRead).map
      (fun s => (s.shared.dev.mode, s.locals 1, s.shared.received)) =
        some (.SPSC, .done (.bytes (.ok 1) [7]), [(4, [7])]) from rfl)
  obtain ⟨hmode, hrest⟩ := Prod.mk.inj hend
  obtain ⟨hdone, hreceived⟩ := Prod.mk.inj hrest
  have hdev : Wellformed (emptyDev .BLOCKING 1 2) :=
    emptyDev_wellformed _ _ _ (by decide) (by decide) (by decide) (by decide) (by decide)
  have hok : Along driver (fun s act => SamplesBlocking s act ∧ SwitchesIdle s act)
      (boot (emptyDev .BLOCKING 1 2)) switchAfterRead :=
    along_of_checkAlong (fun _ _ => quiet_of_upTo) (fun _ _ => rfl) (by decide)
      (show checkAlong driver (quietUpTo 3) _ _ = true from rfl)
  have hfit : Along driver ClampedFit (boot (emptyDev .BLOCKING 1 2)) switchAfterRead :=
    along_of_checkAlong (fun _ _ => clampedFit_of_upTo) (fun _ _ => rfl) (by decide)
      (show checkAlong driver (clampedFitUpTo 3) _ _ = true from rfl)
  obtain ⟨hcount, -, hkept⟩ := mode_switch_keeps_messages hdev rfl rfl hok hrun
  exact ⟨s, hrun, hmode, hdone, hcount, (hkept hfit).1 0 4 [7] (by rw [hreceived]; rfl)⟩

end Kbuf
