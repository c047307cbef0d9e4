import Kbuf.Machine.Span
import Kbuf.Spsc.Runs

namespace Kbuf

open Interleaving FreeRunning

section Slots

-- The slot that a producer has picked and not yet published.
def Local.filling : Local → Option SlotPtr
  | .writeSpsc _ _ (.copy f _) | .writeSpsc _ _ (.setLen f) | .writeSpsc _ _ (.publish f) =>
      some f.slot
  | _ => none

-- The slot that a consumer has picked and not yet released.
def Local.draining : Local → Option SlotPtr
  | .readSpsc _ _ (.len _ slot) => some slot
  | .readSpsc _ _ (.copy f) | .readSpsc _ _ (.publish f) => some f.slot
  | _ => none

variable {roles : Roles} {s : System} {p q : Nat} {slot other : SlotPtr}

theorem SpscInv.filling_eq (hinv : SpscInv roles s) (h : (s.locals p).filling = some slot) :
    slot = s.shared.slotAt s.shared.dev.prodIdx ∧
      depth s.shared.dev.prodIdx s.shared.dev.consIdx < s.shared.dev.numBuffers := by
  have hok := hinv.local_ok p
  generalize s.locals p = here at h hok
  unfold Local.filling at h
  split at h
  · obtain rfl := Option.some.inj h
    exact ⟨hok.2.1.slot, hok.2.1.room⟩
  · obtain rfl := Option.some.inj h
    exact ⟨hok.2.1.slot, hok.2.1.room⟩
  · obtain rfl := Option.some.inj h
    exact ⟨hok.2.1.slot, hok.2.1.room⟩
  · cases h

theorem SpscInv.draining_eq (hinv : SpscInv roles s) (h : (s.locals p).draining = some slot) :
    slot = s.shared.slotAt s.shared.dev.consIdx ∧
      0 < depth s.shared.dev.prodIdx s.shared.dev.consIdx := by
  have hok := hinv.local_ok p
  generalize s.locals p = here at h hok
  unfold Local.draining at h
  split at h
  · obtain rfl := Option.some.inj h
    exact ⟨hok.2.slot, hok.2.ready⟩
  · obtain rfl := Option.some.inj h
    exact ⟨hok.2.1.slot, hok.2.1.ready⟩
  · obtain rfl := Option.some.inj h
    exact ⟨hok.2.1.slot, hok.2.1.ready⟩
  · cases h

theorem slotAt_ne {w : World} {index other : BitVec 32}
    (h : w.dev.ring.masked index ≠ w.dev.ring.masked other) : w.slotAt other ≠ w.slotAt index :=
  fun heq => h (congrArg SlotPtr.index heq).symm

-- The slot being filled holds no published message.
theorem SpscInv.filling_unpublished (hinv : SpscInv roles s)
    (h : (s.locals p).filling = some slot) (index : BitVec 32)
    (hi : depth index s.shared.dev.consIdx < depth s.shared.dev.prodIdx s.shared.dev.consIdx) :
    slot ≠ s.shared.slotAt index := by
  obtain ⟨rfl, hroom⟩ := hinv.filling_eq h
  exact slotAt_ne (masked_published hinv.ring.geometry hinv.ring.ring hi hroom)

theorem SpscInv.filling_ne_draining (hinv : SpscInv roles s)
    (h : (s.locals p).filling = some slot) (hother : (s.locals q).draining = some other) :
    slot ≠ other := by
  obtain ⟨rfl, hready⟩ := hinv.draining_eq hother
  refine hinv.filling_unpublished h _ ?_
  rw [depth_self]
  exact hready

theorem SpscInv.whole (hinv : SpscInv roles s) {ret : Ret} (h : s.locals p = .done ret) :
    ret.Whole := by
  have hok := hinv.local_ok p
  rw [h] at hok
  exact hok

theorem SpscInv.kth (hinv : SpscInv roles s) {k count : Nat} {out : List UInt8}
    (hk : s.shared.received[k]? = some (count, out)) :
    ∃ message, s.shared.sent[k]? = some message ∧ out = message.take count := by
  obtain ⟨message, hm, hout⟩ := hinv.ring.delivered.kth hk
  exact ⟨message, hm, hout⟩

end Slots

section Runs

variable {dev : Dev} {acts : List (Act Choice)} {s : System} {producer consumer : Nat}

-- One producer and one consumer, and nobody who resizes.
def Roles.pair (producer consumer : Nat) : Roles := ⟨producer, consumer, fun _ => False⟩

-- Nobody of the pair ever resizes.
theorem SpscInv.pair_step {t : System} {act : Act Choice}
    (hinv : SpscInv (Roles.pair producer consumer) s)
    (hstart : Starting (Roles.pair producer consumer).allows s act)
    (h : step driver s act = some t) : SpscInv (Roles.pair producer consumer) t := by
  refine spscInv_step hinv hstart (fun rq ptr hswap => ?_) h
  have hok := hinv.local_ok act.pid
  rw [hswap] at hok
  exact hok.1.elim

theorem spscInv_pair_run (hdev : Wellformed dev) (hmode : dev.mode = .SPSC)
    (hempty : queue dev = [])
    (hreq : Along driver (Starting (Roles.pair producer consumer).allows) (boot dev) acts)
    (hrun : run driver (boot dev) acts = some s) : SpscInv (Roles.pair producer consumer) s :=
  run_invariant (fun _ _ _ hinv hstart h => hinv.pair_step hstart h)
    (spscInv_boot hdev hmode hempty) hreq hrun

-- The lock-free path from any start indices, over any interleaving.
theorem spsc_exactly_once (hdev : Wellformed dev) (hmode : dev.mode = .SPSC)
    (hempty : queue dev = [])
    (hreq : Along driver (Starting (Roles.pair producer consumer).allows) (boot dev) acts)
    (hrun : run driver (boot dev) acts = some s) :
    (∀ (k count : Nat) (out : List UInt8), s.shared.received[k]? = some (count, out) →
        ∃ message, s.shared.sent[k]? = some message ∧ out = message.take count) ∧
      s.shared.sent.drop s.shared.received.length = queue s.shared.dev ∧
      (s.shared.dev.prodIdx - s.shared.dev.consIdx).toNat ≤ s.shared.dev.numBuffers ∧
      (∀ p slot, (s.locals p).filling = some slot →
        (∀ index : BitVec 32, (index - s.shared.dev.consIdx).toNat <
            (s.shared.dev.prodIdx - s.shared.dev.consIdx).toNat →
          slot ≠ s.shared.slotAt index) ∧
        ∀ q other, (s.locals q).draining = some other → slot ≠ other) ∧
      ∀ p request start during ret, CallSpan (boot dev) acts p request start during →
        s.locals p = .done ret → ret.Whole ∧
          ∃ events, s.shared.eventsOf p = start.shared.eventsOf p ++ events ∧
            ret.Recorded p request events := by
  have hinv := spscInv_pair_run hdev hmode hempty hreq hrun
  refine ⟨fun k count out hk => hinv.kth hk, hinv.ring.delivered.drop_eq, hinv.ring.ring.depth_le,
    fun p slot hp => ⟨hinv.filling_unpublished hp, fun q other => hinv.filling_ne_draining hp⟩,
    fun p request start during ret hspan hdone => ⟨hinv.whole hdone, hspan.recorded hrun hdone⟩⟩

end Runs

-- Process 0 writes and process 1 reads.
def pairAllows (act : Act Choice) : Bool :=
  match act.choice with
  | .start (.read ..) => act.pid = 1
  | .start (.write ..) => act.pid = 0
  | .start (.resize _) | .start (.smode _) => false
  | _ => true

theorem allows_of_pairAllows {p : Nat} {request : Request}
    (h : pairAllows ⟨p, .start request⟩ = true) : (Roles.pair 0 1).allows p request := by
  cases request with
  | read => exact (of_decide_eq_true h : p = 1)
  | write => exact (of_decide_eq_true h : p = 0)
  | resize | smode => cases h
  | reset | getstats | poll => trivial

theorem starting_of_all {s : System} {acts : List (Act Choice)}
    (h : acts.all pairAllows = true) :
    Along driver (Starting (Roles.pair 0 1).allows) s acts := by
  refine along_of_mem fun _ act hact request hr => allows_of_pairAllows ?_
  rw [← hr]
  exact List.all_eq_true.mp h act hact

-- A write of three bytes into the only slot, of two bytes, while a read waits for
-- it. The indices are about to wrap.
def wrapDev : Dev := { emptyDev .SPSC 1 2 with prodIdx := 0xFFFFFFFF, consIdx := 0xFFFFFFFF }

theorem wrapDev_wellformed : Wellformed wrapDev where
  geometry := (emptyDev_geometry .SPSC 1 2 (by decide) (by decide) (by decide)
    (by decide)).of_eq rfl rfl rfl
  discipline := (⟨⟨0, rfl⟩, by decide⟩ : SpscRing wrapDev)

def wrapHandover : List (Act Choice) :=
  ⟨0, .start (.write true ⟨[7, 8, 9], 3⟩)⟩ :: proceed 0 6 ++
    ⟨1, .start (.read false ⟨4, 4⟩)⟩ :: proceed 1 7 ++ proceed 0 12 ++ proceed 1 17

theorem spsc_exactly_once_wrapHandover :
    ∃ s, run driver (boot wrapDev) wrapHandover = some s ∧ s.shared.dev.prodIdx = 0 ∧
      s.locals 1 = .done (.bytes (.ok 2) [7, 8]) ∧
      ∃ message, s.shared.sent[0]? = some message ∧ [7, 8] = message.take 4 := by
  obtain ⟨s, hrun, hend⟩ := Option.map_eq_some_iff.mp
    (show (run driver (boot wrapDev) wrapHandover).map
      (fun s => (s.shared.dev.prodIdx, s.locals 1, s.shared.received)) =
        some (0, .done (.bytes (.ok 2) [7, 8]), [(4, [7, 8])]) from rfl)
  obtain ⟨hprod, hrest⟩ := Prod.mk.inj hend
  obtain ⟨hdone, hreceived⟩ := Prod.mk.inj hrest
  obtain ⟨hkth, -⟩ := spsc_exactly_once wrapDev_wellformed rfl rfl (starting_of_all rfl) hrun
  exact ⟨s, hrun, hprod, hdone, hkth 0 4 [7, 8] (by rw [hreceived]; rfl)⟩

end Kbuf
