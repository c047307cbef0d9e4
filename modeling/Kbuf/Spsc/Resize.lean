import Kbuf.Spsc.Delivery

namespace Kbuf

open Interleaving FreeRunning

section Runs

variable {dev : Dev} {acts : List (Act Choice)} {s : System} {producer consumer : Nat}

-- One producer and one consumer, and anybody may resize.
def Roles.resizing (producer consumer : Nat) : Roles := ⟨producer, consumer, fun _ => True⟩

theorem spscInv_resizing_run (hdev : Wellformed dev) (hmode : dev.mode = .SPSC)
    (hempty : queue dev = [])
    (hok : Along driver
      (fun s act => Starting (Roles.resizing producer consumer).allows s act ∧ ResizesIdle s act)
      (boot dev) acts)
    (hrun : run driver (boot dev) acts = some s) :
    SpscInv (Roles.resizing producer consumer) s :=
  run_invariant (fun _ _ _ hinv hok h => spscInv_step hinv hok.1 hok.2 h)
    (spscInv_boot hdev hmode hempty) hok hrun

theorem SpscInv.held_live {roles : Roles} (hinv : SpscInv roles s) {p : Nat} {slot : SlotPtr}
    (h : (s.locals p).filling = some slot ∨ (s.locals p).draining = some slot) :
    slot.array ∈ s.shared.live := by
  rcases h with h | h
  · obtain ⟨rfl, -⟩ := hinv.filling_eq h
    exact hinv.own.slotsPtr_live
  · obtain ⟨rfl, -⟩ := hinv.draining_eq h
    exact hinv.own.slotsPtr_live

-- Resizes that go through while nobody is in the middle of a transfer they break.
theorem resize_keeps_spsc_messages (hdev : Wellformed dev) (hmode : dev.mode = .SPSC)
    (hempty : queue dev = [])
    (hok : Along driver
      (fun s act => Starting (Roles.resizing producer consumer).allows s act ∧ ResizesIdle s act)
      (boot dev) acts)
    (hrun : run driver (boot dev) acts = some s) :
    (s.shared.dev.prodIdx - s.shared.dev.consIdx).toNat ≤ s.shared.dev.numBuffers ∧
      (∀ (k count : Nat) (out : List UInt8), s.shared.received[k]? = some (count, out) →
        ∃ message, s.shared.sent[k]? = some message ∧ out = message.take count) ∧
      s.shared.sent.drop s.shared.received.length = queue s.shared.dev ∧
      (∀ p request start during ret, CallSpan (boot dev) acts p request start during →
        s.locals p = .done ret → ret.Whole ∧
          ∃ events, s.shared.eventsOf p = start.shared.eventsOf p ++ events ∧
            ret.Recorded p request events) ∧
      ∀ p slot, (s.locals p).filling = some slot ∨ (s.locals p).draining = some slot →
        slot.array ∈ s.shared.live := by
  have hinv := spscInv_resizing_run hdev hmode hempty hok hrun
  refine ⟨hinv.ring.ring.depth_le, fun k count out hk => hinv.kth hk,
    hinv.ring.delivered.drop_eq, fun p request start during ret hspan hdone => ?_,
    fun p slot hp => hinv.held_live hp⟩
  exact ⟨hinv.whole hdone, hspan.recorded hrun hdone⟩

end Runs

-- A resize of the same size goes through after the first `steps` steps of a
-- write, up to the release of the old array.
def resizeDuringWrite (steps : Nat) : List (Act Choice) :=
  ⟨0, .start (.write true ⟨[7], 1⟩)⟩ :: proceed 0 steps ++
    ⟨2, .start (.resize ⟨false, 1, 1, fun _ => true⟩)⟩ :: proceed 2 6

-- The write then goes on to the end, and the consumer reads.
def finishAndRead (write read : Nat) : List (Act Choice) :=
  proceed 0 write ++ ⟨1, .start (.read true ⟨4, 4⟩)⟩ :: proceed 1 read

theorem resizeDuringWrite_allowed (steps write read : Nat) :
    Along driver (Starting (Roles.resizing 0 1).allows) (boot (emptyDev .SPSC 1 1))
      (resizeDuringWrite steps ++ finishAndRead write read) := by
  refine along_of_mem fun _ act hact request hr => ?_
  simp only [resizeDuringWrite, finishAndRead, proceed, List.cons_append, List.mem_cons,
    List.mem_append, List.mem_replicate] at hact
  rcases hact with rfl | (⟨-, rfl⟩ | rfl | ⟨-, rfl⟩) | ⟨-, rfl⟩ | rfl | ⟨-, rfl⟩
  · cases hr; rfl
  · cases hr
  · cases hr; trivial
  · cases hr
  · cases hr
  · cases hr; rfl
  · cases hr

-- The producer has picked a slot of the old array. The array is freed under it,
-- its message goes there, and the consumer reads an empty one from the new array.
theorem resize_loses_message :
    ∃ s t, run driver (boot (emptyDev .SPSC 1 1)) (resizeDuringWrite 5) = some s ∧
      (s.locals 0).filling = some ⟨0, 0⟩ ∧ 0 ∉ s.shared.live ∧
      run driver s (finishAndRead 12 13) = some t ∧
      Along driver (Starting (Roles.resizing 0 1).allows) (boot (emptyDev .SPSC 1 1))
        (resizeDuringWrite 5 ++ finishAndRead 12 13) ∧
      t.locals 0 = .done (.size (.ok 1)) ∧ t.shared.sent = [[7]] ∧
      t.locals 1 = .done (.bytes (.ok 0) []) ∧ t.shared.received = [(4, [])] ∧
      queue t.shared.dev = [] := by
  obtain ⟨s, hrun, hend⟩ := Option.map_eq_some_iff.mp
    (show (run driver (boot (emptyDev .SPSC 1 1)) (resizeDuringWrite 5)).map
      (fun s => ((s.locals 0).filling, s.shared.live,
        (run driver s (finishAndRead 12 13)).map fun t =>
          (t.locals 0, t.shared.sent, t.locals 1, t.shared.received, queue t.shared.dev))) =
        some (some ⟨0, 0⟩, [1], some (.done (.size (.ok 1)), [[7]], .done (.bytes (.ok 0) []),
          [(4, [])], [])) from rfl)
  obtain ⟨hfilling, hrest⟩ := Prod.mk.inj hend
  obtain ⟨hlive, hlater⟩ := Prod.mk.inj hrest
  obtain ⟨t, ht, hend⟩ := Option.map_eq_some_iff.mp hlater
  obtain ⟨hwrite, hrest⟩ := Prod.mk.inj hend
  obtain ⟨hsent, hrest⟩ := Prod.mk.inj hrest
  obtain ⟨hread, hrest⟩ := Prod.mk.inj hrest
  obtain ⟨hreceived, hqueue⟩ := Prod.mk.inj hrest
  refine ⟨s, t, hrun, hfilling, ?_, ht, resizeDuringWrite_allowed 5 12 13, hwrite, hsent, hread,
    hreceived, hqueue⟩
  rw [hlive]
  decide

def resizesIdleUpTo (bound : Nat) (s : System) (act : Act Choice) : Bool :=
  match s.locals act.pid with
  | .resize rq (.swap _) =>
      (List.range bound).all fun q => !(s.locals q).disturbed rq.bufferSize
  | _ => true

theorem resizesIdle_of_upTo {bound : Nat} {s : System} {act : Act Choice}
    (hidle : ∀ q, bound ≤ q → s.locals q = .idle) (h : resizesIdleUpTo bound s act = true) :
    ResizesIdle s act := by
  intro rq ptr hswap _ q
  simp only [resizesIdleUpTo, hswap, List.all_eq_true, List.mem_range] at h
  by_cases hq : q < bound
  · simpa using h q hq
  · rw [hidle q (Nat.le_of_not_lt hq)]
    rfl

-- One step earlier in the write, the same resize does no harm.
theorem resize_keeps_spsc_messages_beforePick :
    ∃ s, run driver (boot (emptyDev .SPSC 1 1))
        (resizeDuringWrite 4 ++ finishAndRead 13 14) = some s ∧
      s.locals 1 = .done (.bytes (.ok 1) [7]) ∧
      ∃ message, s.shared.sent[0]? = some message ∧ [7] = message.take 4 := by
  have hdev : Wellformed (emptyDev .SPSC 1 1) :=
    emptyDev_wellformed _ _ _ (by decide) (by decide) (by decide) (by decide) fun _ => ⟨0, rfl⟩
  have hidle : Along driver ResizesIdle (boot (emptyDev .SPSC 1 1))
      (resizeDuringWrite 4 ++ finishAndRead 13 14) :=
    along_of_checkAlong (fun _ _ => resizesIdle_of_upTo) (fun _ _ => rfl) (by decide)
      (show checkAlong driver (resizesIdleUpTo 3) _ _ = true from rfl)
  obtain ⟨s, hrun, hend⟩ := Option.map_eq_some_iff.mp
    (show (run driver (boot (emptyDev .SPSC 1 1)) (resizeDuringWrite 4 ++ finishAndRead 13 14)).map
      (fun s => (s.locals 1, s.shared.received)) =
        some (.done (.bytes (.ok 1) [7]), [(4, [7])]) from rfl)
  obtain ⟨hdone, hreceived⟩ := Prod.mk.inj hend
  obtain ⟨-, hkth, -⟩ := resize_keeps_spsc_messages hdev rfl rfl
    (Along.and (resizeDuringWrite_allowed 4 13 14) hidle) hrun
  exact ⟨s, hrun, hdone, hkth 0 4 [7] (by rw [hreceived]; rfl)⟩

end Kbuf
