import Kbuf.Machine.Count

namespace Kbuf

open Interleaving

section Conditions

-- The points of a write before it has stored its message.
def WritePc.unproduced : WritePc → Bool
  | .lock | .clamp | .loop | .unlockSleep | .wait _ | .relock | .produce => true
  | .unlock _ | .wake _ => false

-- A write that chose the blocking path and has not stored its message.
def Local.unproduced : Local → Bool
  | .writeBlocking _ _ pc => pc.unproduced
  | _ => false

-- Every read and write of the run samples the blocking mode.
def SamplesBlocking (s : System) (act : Act Choice) : Prop :=
  (∀ nonblock u, s.locals act.pid = .readEntry nonblock u → s.shared.dev.mode = .BLOCKING) ∧
    ∀ nonblock u, s.locals act.pid = .writeEntry nonblock u → s.shared.dev.mode = .BLOCKING

-- No write is on its way when a switch to SPSC goes through.
def SwitchesIdle (s : System) (act : Act Choice) : Prop :=
  ∀ arg dev, s.locals act.pid = .smode arg (.switch .SPSC) →
    smodeSwitch s.shared.dev .SPSC = .ok dev → ∀ p, (s.locals p).unproduced = false

def Local.notSpsc : Local → Bool
  | .readSpsc .. | .writeSpsc .. => false
  | _ => true

end Conditions

section Steps

variable {w w' : World} {here next : Local} {me : Nat}

-- The counter accounts for every message accepted and not yet delivered.
def World.Balanced (w : World) : Prop :=
  w.dev.count + w.received.length = w.sent.length

-- While the device is in SPSC mode it is empty in both representations.
def Dev.EmptyInSpsc (dev : Dev) : Prop :=
  dev.mode = .SPSC → dev.count = 0 ∧ dev.prodIdx = dev.consIdx

theorem World.Balanced.of_eq (h : w.Balanced) (hc : w'.dev.count = w.dev.count)
    (hlog : w'.log = w.log) : w'.Balanced := by
  unfold World.Balanced World.received World.sent at h ⊢
  rw [hc, hlog]
  exact h

theorem World.Balanced.produced {message : List UInt8} (h : w.Balanced)
    (hc : w'.dev.count = w.dev.count + 1) (hlog : w'.log = w.log ++ [.produced me message]) :
    w'.Balanced := by
  unfold World.Balanced World.received World.sent at h ⊢
  rw [hc, hlog]
  simp
  omega

theorem World.Balanced.consumed {count : Nat} {out : List UInt8} (h : w.Balanced)
    (hc : w'.dev.count = w.dev.count - 1)
    (hlog : w'.log = w.log ++ [.consumed me count out]) : w'.Balanced := by
  unfold World.Balanced World.received World.sent at h ⊢
  rw [hc, hlog]
  simp
  omega

theorem Dev.EmptyInSpsc.of_eq {dev other : Dev} (h : dev.EmptyInSpsc)
    (hm : other.mode = dev.mode) (hc : other.count = dev.count)
    (hp : other.prodIdx = dev.prodIdx) (hi : other.consIdx = dev.consIdx) :
    other.EmptyInSpsc := by
  unfold Dev.EmptyInSpsc
  rw [hm, hc, hp, hi]
  exact h

-- An idle ring has a zero counter in either mode.
theorem count_eq_zero_of_occupancy {dev : Dev} (hb : CountBounds dev) (he : dev.EmptyInSpsc)
    (ho : occupancy dev = 0) : dev.count = 0 := by
  cases hm : dev.mode with
  | SPSC => exact (he hm).1
  | BLOCKING =>
      have hnonneg := hb.count_nonneg
      simp only [occupancy, hm, hb.toUnsigned_eq] at ho
      omega

-- What a step leaves behind.
structure BalanceStep (w : World) (here : Local) (w' : World) (next : Local) : Prop where
  balanced : w'.Balanced
  empty : w'.dev.EmptyInSpsc
  notSpsc : next.notSpsc = true
  unproduced : next.unproduced = true → here.unproduced = true ∨ w.dev.mode = .BLOCKING
  mode : w'.dev.mode = .SPSC → w.dev.mode = .SPSC ∨
    (∃ arg dev, here = .smode arg (.switch .SPSC) ∧ smodeSwitch w.dev .SPSC = .ok dev) ∧
      next.unproduced = false

theorem BalanceStep.quiet (hbal : w.Balanced) (he : w.dev.EmptyInSpsc)
    (hlog : w'.log = w.log) (hm : w'.dev.mode = w.dev.mode) (hc : w'.dev.count = w.dev.count)
    (hp : w'.dev.prodIdx = w.dev.prodIdx) (hi : w'.dev.consIdx = w.dev.consIdx)
    (hnot : next.notSpsc = true)
    (hun : next.unproduced = true → here.unproduced = true ∨ w.dev.mode = .BLOCKING) :
    BalanceStep w here w' next where
  balanced := hbal.of_eq hc hlog
  empty := he.of_eq hm hc hp hi
  notSpsc := hnot
  unproduced := hun
  mode h := Or.inl (hm ▸ h)

theorem consumeStep_indices (w : World) (me : Nat) (u : UserRead) :
    (consumeStep w me u).1.dev.prodIdx = w.dev.prodIdx ∧
      (consumeStep w me u).1.dev.consIdx = w.dev.consIdx := by
  obtain ⟨log, h⟩ := consumeStep_world w me u
  rw [h]
  dsimp only [ringConsume]
  split <;> exact ⟨rfl, rfl⟩

theorem produceStep_indices (w : World) (me : Nat) (u : UserWrite) :
    (produceStep w me u).1.dev.prodIdx = w.dev.prodIdx ∧
      (produceStep w me u).1.dev.consIdx = w.dev.consIdx := by
  obtain ⟨log, h⟩ := produceStep_world w me u
  rw [h]
  dsimp only [ringProduce]
  split <;> exact ⟨rfl, rfl⟩

theorem ReadMove.balance_step {nonblock : Bool} {u : UserRead} {pc : ReadPc}
    {after : Next ReadPc} (hb : CountBounds w.dev) (hbal : w.Balanced) (he : w.dev.EmptyInSpsc)
    (hc : (Local.readBlocking nonblock u pc).Checked w.dev)
    (h : ReadMove nonblock u me w pc w' after) :
    BalanceStep w (.readBlocking nonblock u pc) w' (after.lift (.readBlocking nonblock u)) := by
  cases h with
  | @wait _ _ out hw =>
      have hd := hw.dev_eq
      refine .quiet hbal he hw.log_eq (by rw [hd]) (by rw [hd]) (by rw [hd]) (by rw [hd]) ?_ ?_
      · cases out <;> rfl
      · cases out <;> nofun
  | consume =>
      have hm := consumeStep_mode w me u
      obtain ⟨hp, hi⟩ := consumeStep_indices w me u
      have hpos := count_pos_of_not_empty hb hc
      rcases consumeStep_count w me u with ⟨hcount, hlog, -⟩ | ⟨out, hcount, hlog, -⟩
      · exact .quiet hbal he hlog hm hcount hp hi rfl nofun
      · refine ⟨hbal.consumed hcount hlog, fun hs => ?_, rfl, nofun, fun hs => Or.inl (hm ▸ hs)⟩
        -- The ring is not empty, so the mode is not SPSC.
        have hzero := (he (hm ▸ hs)).1
        omega
  | lock | lockSignal | again | sleep | ready | unlockSleep | unlockOk | unlockError | wake =>
      exact .quiet hbal he rfl rfl rfl rfl rfl rfl nofun

theorem WriteMove.balance_step {nonblock : Bool} {u : UserWrite} {pc : WritePc}
    {after : Next (UserWrite × WritePc)} (hbal : w.Balanced) (he : w.dev.EmptyInSpsc)
    (hun : w.dev.mode = .SPSC → pc.unproduced = false)
    (h : WriteMove nonblock u me w pc w' after) :
    BalanceStep w (.writeBlocking nonblock u pc) w'
      (after.lift fun (u, pc) => .writeBlocking nonblock u pc) := by
  cases h with
  | @wait _ _ out hw =>
      have hd := hw.dev_eq
      refine .quiet hbal he hw.log_eq (by rw [hd]) (by rw [hd]) (by rw [hd]) (by rw [hd]) ?_ ?_
      · cases out <;> rfl
      · exact fun _ => Or.inl rfl
  | produce =>
      have hm := produceStep_mode w me u
      obtain ⟨hp, hi⟩ := produceStep_indices w me u
      rcases produceStep_count w me u with ⟨hcount, hlog, -⟩ | ⟨hcount, hlog, -⟩
      · exact .quiet hbal he hlog hm hcount hp hi rfl nofun
      · refine ⟨hbal.produced hcount hlog, fun hs => ?_, rfl, nofun, fun hs => Or.inl (hm ▸ hs)⟩
        -- A write that is about to store its message excludes SPSC mode.
        have hfalse := hun (hm ▸ hs)
        cases hfalse
  | lock | lockSignal | clamp | again | sleep | ready | unlockSleep | relock | relockSignal =>
      exact .quiet hbal he rfl rfl rfl rfl rfl rfl fun _ => Or.inl rfl
  | unlockOk | unlockError | wake => exact .quiet hbal he rfl rfl rfl rfl rfl rfl nofun

theorem ResizeMove.balance_step {rq : ResizeArg} {pc : ResizePc} {after : Next ResizePc}
    (hb : CountBounds w.dev) (hbal : w.Balanced) (he : w.dev.EmptyInSpsc)
    (h : ResizeMove rq me w pc w' after) :
    BalanceStep w (.resize rq pc) w' (after.lift (.resize rq)) := by
  cases h with
  | swap ho =>
      have hzero := count_eq_zero_of_occupancy hb he ho
      exact ⟨hbal.of_eq hzero.symm rfl, fun _ => ⟨rfl, rfl⟩, rfl, nofun, Or.inl⟩
  | reject | accept | nomem | alloc | lock | busy | unlockBusy | freeNew | unlock | freeOld
  | wake => exact .quiet hbal he rfl rfl rfl rfl rfl rfl nofun

theorem SmodeMove.balance_step {arg : SmodeArg} {pc : SmodePc} {after : Next SmodePc}
    (hb : CountBounds w.dev) (hbal : w.Balanced) (he : w.dev.EmptyInSpsc)
    (h : SmodeMove arg me w pc w' after) :
    BalanceStep w (.smode arg pc) w' (after.lift (.smode arg)) := by
  cases h with
  | @switch mode ho hp =>
      have hzero := count_eq_zero_of_occupancy hb he ho
      refine ⟨hbal.of_eq hzero.symm rfl, fun _ => ⟨rfl, rfl⟩, rfl, nofun, fun hm => Or.inr ?_⟩
      obtain rfl : mode = .SPSC := hm
      refine ⟨⟨arg, w.dev.switched .SPSC, rfl, ?_⟩, rfl⟩
      simp [smodeSwitch, ho, hp rfl]
  | reject | accept | lock | refuse | unlock =>
      exact .quiet hbal he rfl rfl rfl rfl rfl rfl nofun

theorem Move.balance_step {choice : Choice} (hb : CountBounds w.dev) (hbal : w.Balanced)
    (he : w.dev.EmptyInSpsc) (hc : here.Checked w.dev) (hnot : here.notSpsc = true)
    (hun : w.dev.mode = .SPSC → here.unproduced = false)
    (hread : ∀ nonblock u, here = .readEntry nonblock u → w.dev.mode = .BLOCKING)
    (hwrite : ∀ nonblock u, here = .writeEntry nonblock u → w.dev.mode = .BLOCKING)
    (h : Move me w choice here w' next) : BalanceStep w here w' next := by
  cases h with
  | @enter _ request _ =>
      cases request <;> exact .quiet hbal he rfl rfl rfl rfl rfl rfl nofun
  | readSampleSpsc hm => rw [hread _ _ rfl] at hm; cases hm
  | writeSampleSpsc hm => rw [hwrite _ _ rfl] at hm; cases hm
  | readSampleBlocking => exact .quiet hbal he rfl rfl rfl rfl rfl rfl nofun
  | writeSampleBlocking hm =>
      exact .quiet hbal he rfl rfl rfl rfl rfl rfl fun _ => Or.inr hm
  | readBlocking h => exact h.balance_step hb hbal he hc
  | writeBlocking h => exact h.balance_step hbal he hun
  | readSpsc | writeSpsc => cases hnot
  | resize h => exact h.balance_step hb hbal he
  | smode h => exact h.balance_step hb hbal he
  | reset h =>
      cases h with
      | @store field =>
          obtain ⟨_, _, _, _, _, _, _, hd⟩ := resetStore_frame w.dev field
          rw [hd]
          refine .quiet hbal he rfl rfl rfl rfl rfl rfl nofun
      | lock | unlock => exact .quiet hbal he rfl rfl rfl rfl rfl rfl nofun
  | getstats h => cases h <;> exact .quiet hbal he rfl rfl rfl rfl rfl rfl nofun
  | poll h => cases h <;> exact .quiet hbal he rfl rfl rfl rfl rfl rfl nofun

end Steps

structure BalanceInv (s : System) : Prop where
  count : CountInv s
  balanced : s.shared.Balanced
  empty : s.shared.dev.EmptyInSpsc
  notSpsc : ∀ p, (s.locals p).notSpsc = true
  produced : s.shared.dev.mode = .SPSC → ∀ p, (s.locals p).unproduced = false

section Runs

variable {dev : Dev} {s t : System}

theorem balanceInv_step {act : Act Choice} (hinv : BalanceInv s) (hsample : SamplesBlocking s act)
    (hidle : SwitchesIdle s act) (h : step driver s act = some t) : BalanceInv t := by
  have hcount := countInv_step hinv.count h
  obtain ⟨w, next, hmove, rfl⟩ := step_move h
  have hstep := hmove.balance_step hinv.count.bounds hinv.balanced hinv.empty
    (hinv.count.checked act.pid) (hinv.notSpsc act.pid) (fun hm => hinv.produced hm act.pid)
    hsample.1 hsample.2
  refine ⟨hcount, hstep.balanced, hstep.empty, ?_, fun hm => ?_⟩
  · exact State.forall_put (P := fun _ (here : Local) => here.notSpsc = true) hstep.notSpsc
      fun p _ => hinv.notSpsc p
  · rcases hstep.mode hm with hspsc | ⟨⟨arg, dev, hhere, hswitch⟩, hnext⟩
    · refine State.forall_put (P := fun _ (here : Local) => here.unproduced = false) ?_
        fun p _ => hinv.produced hspsc p
      refine Bool.eq_false_iff.mpr fun hn => ?_
      rcases hstep.unproduced hn with hh | hh
      · rw [hinv.produced hspsc act.pid] at hh
        cases hh
      · rw [hspsc] at hh
        cases hh
    · exact State.forall_put (P := fun _ (here : Local) => here.unproduced = false) hnext
        fun p _ => hidle arg dev hhere hswitch p

theorem balanceInv_boot (hdev : Wellformed dev) (hmode : dev.mode = .BLOCKING)
    (hempty : queue dev = []) : BalanceInv (boot dev) where
  count := by
    have hr : BlockingRing dev := by simpa only [Discipline, hmode] using hdev.discipline
    exact countInv_boot (hr.countBounds hdev.geometry)
  balanced := by
    have hr : BlockingRing dev := by simpa only [Discipline, hmode] using hdev.discipline
    have hq : blockingQueue dev = [] := by simpa only [queue, hmode] using hempty
    have hcount : dev.count = 0 := by simpa [ringIsEmpty] using (ringIsEmpty_iff hr).mpr hq
    simp [World.Balanced, boot, World.received, World.sent, hcount]
  empty hm := by
    change dev.mode = .SPSC at hm
    rw [hmode] at hm
    cases hm
  notSpsc _ := rfl
  produced _ _ := rfl

theorem BalanceInv.occupancy_eq (h : BalanceInv s) :
    occupancy s.shared.dev + s.shared.received.length = s.shared.sent.length := by
  have hbal := h.balanced
  have hb := h.count.bounds
  have hnonneg := hb.count_nonneg
  unfold World.Balanced at hbal
  cases hm : s.shared.dev.mode with
  | SPSC =>
      obtain ⟨hzero, hindex⟩ := h.empty hm
      simp only [occupancy, hm, hindex, BitVec.sub_self]
      simp
      omega
  | BLOCKING =>
      simp only [occupancy, hm, hb.toUnsigned_eq]
      omega

end Runs

end Kbuf
