import Kbuf.Failure.Messages
import Kbuf.Machine.Log
import Kbuf.Resize.PowerOfTwo

namespace Kbuf

open Interleaving

section Conditions

-- In SPSC mode there is one producer and one consumer at a time.
structure SoleTransfers (s : System) (act : Act Choice) : Prop where
  writer : ∀ nonblock u, s.locals act.pid = .writeEntry nonblock u → s.shared.dev.mode = .SPSC →
    ∀ q, (s.locals q).spscWriter = false
  reader : ∀ nonblock u, s.locals act.pid = .readEntry nonblock u → s.shared.dev.mode = .SPSC →
    ∀ q, (s.locals q).spscReader = false

-- The mode is switched only while no read or write is in progress.
def SwitchesQuiet (s : System) (act : Act Choice) : Prop :=
  ∀ arg mode, s.locals act.pid = .smode arg (.switch mode) → occupancy s.shared.dev = 0 →
    ∀ q, (s.locals q).path = none

-- The documented use of the device: one producer and one consumer in SPSC mode, and
-- no switch of the mode during a read or write.
def Contract (s : System) (act : Act Choice) : Prop := SoleTransfers s act ∧ SwitchesQuiet s act

-- A RESIZE that goes through catches no lock-free transfer, leaves room for every count
-- clamped before it, and in SPSC mode has a power of two.
structure ResizesClear (s : System) (act : Act Choice) : Prop where
  clear : ∀ rq ptr, s.locals act.pid = .resize rq (.swap ptr) → occupancy s.shared.dev = 0 →
    ∀ q, (s.locals q).caught = false
  fits : ClampedFit s act
  power : PowerInSpsc s act

end Conditions

section Sole

variable {w w' : World} {here next : Local} {me : Nat} {choice : Choice}

-- A lock-free transfer comes from the sample of the mode.
theorem Move.spscWriter (hnext : next.spscWriter = true) (h : Move me w choice here w' next) :
    here.spscWriter = true ∨
      ∃ nonblock u, here = .writeEntry nonblock u ∧ w.dev.mode = .SPSC := by
  cases h with
  | writeSampleSpsc hm => exact .inr ⟨_, _, rfl, hm⟩
  | writeSpsc => exact .inl rfl
  | @enter _ request => cases request <;> cases hnext
  | readSampleSpsc | readSampleBlocking | writeSampleBlocking => cases hnext
  | @readBlocking _ _ _ _ _ after | @readSpsc _ _ _ _ _ after | @resize _ _ _ _ after
  | @smode _ _ _ _ after | @reset _ _ _ after | @getstats _ _ _ _ after | @poll _ _ _ after =>
      cases after <;> cases hnext
  | @writeBlocking _ _ _ _ _ after => cases after <;> cases hnext

theorem Move.spscReader (hnext : next.spscReader = true) (h : Move me w choice here w' next) :
    here.spscReader = true ∨
      ∃ nonblock u, here = .readEntry nonblock u ∧ w.dev.mode = .SPSC := by
  cases h with
  | readSampleSpsc hm => exact .inr ⟨_, _, rfl, hm⟩
  | readSpsc => exact .inl rfl
  | @enter _ request => cases request <;> cases hnext
  | writeSampleSpsc | readSampleBlocking | writeSampleBlocking => cases hnext
  | @readBlocking _ _ _ _ _ after | @writeSpsc _ _ _ _ _ after | @resize _ _ _ _ after
  | @smode _ _ _ _ after | @reset _ _ _ after | @getstats _ _ _ _ after | @poll _ _ _ after =>
      cases after <;> cases hnext
  | @writeBlocking _ _ _ _ _ after => cases after <;> cases hnext

-- At most one process is of a kind if a new one comes only when there is none.
theorem sole_step {s : System} {pid : Nat} {kind : Local → Bool}
    (hsole : ∀ p q, kind (s.locals p) = true → kind (s.locals q) = true → p = q)
    (hnew : kind next = true → kind (s.locals pid) = true ∨ ∀ q, kind (s.locals q) = false)
    (p q : Nat) (hp : kind ((s.put pid (w, next)).locals p) = true)
    (hq : kind ((s.put pid (w, next)).locals q) = true) : p = q := by
  by_cases hpid : p = pid
  · by_cases hqid : q = pid
    · exact hpid.trans hqid.symm
    · rw [State.put_locals_of_ne _ _ hqid] at hq
      rw [hpid, State.put_locals_self] at hp
      rcases hnew hp with hhere | hnone
      · exact hpid.trans (hsole pid q hhere hq)
      · exact absurd ((hnone q).symm.trans hq) Bool.false_ne_true
  · rw [State.put_locals_of_ne _ _ hpid] at hp
    by_cases hqid : q = pid
    · rw [hqid, State.put_locals_self] at hq
      rcases hnew hq with hhere | hnone
      · exact (hsole p pid hp hhere).trans hqid.symm
      · exact absurd ((hnone p).symm.trans hp) Bool.false_ne_true
    · rw [State.put_locals_of_ne _ _ hqid] at hq
      exact hsole p q hp hq

end Sole

section Invariant

structure MessageInv (s : System) : Prop where
  own : OwnInv s
  lock : LockInv s
  wellformed : Wellformed s.shared.dev
  delivered : s.shared.Delivered
  relies : ∀ p, (s.locals p).Relies s.shared
  writer : ∀ p q, (s.locals p).spscWriter = true → (s.locals q).spscWriter = true → p = q
  reader : ∀ p q, (s.locals p).spscReader = true → (s.locals q).spscReader = true → p = q

variable {dev : Dev} {s t : System} {act : Act Choice} {p : Nat}

theorem MessageInv.alongside (hinv : MessageInv s) (hswitch : SwitchesQuiet s act)
    (hresize : ResizesClear s act) (hp : p ≠ act.pid) :
    Alongside s.shared (s.locals act.pid) (s.locals p) where
  lock hholds := Bool.eq_false_iff.mpr fun hp' => hp (hinv.lock.eq_of_holds hp' hholds)
  writer hw := Bool.eq_false_iff.mpr fun hp' => hp (hinv.writer p act.pid hp' hw)
  reader hr := Bool.eq_false_iff.mpr fun hp' => hp (hinv.reader p act.pid hp' hr)
  owned ptr ho := ⟨hinv.own.owned_ne p ptr ho, hinv.own.owned_lt p ptr ho⟩
  quiet arg mode hhere hempty := hswitch arg mode hhere hempty p
  clear rq ptr hhere hempty := hresize.clear rq ptr hhere hempty p
  fits rq ptr hhere hempty := hresize.fits rq ptr hhere hempty p

theorem messageInv_step (hinv : MessageInv s) (hcontract : Contract s act)
    (hresize : ResizesClear s act) (h : step driver s act = some t) : MessageInv t := by
  obtain ⟨hsole, hswitch⟩ := hcontract
  have hown := ownInv_step hinv.own h
  have hlock := lockInv_step hinv.lock h
  obtain ⟨w, next, hmove, rfl⟩ := step_move h
  have hstep := hmove.message_step hinv.wellformed hinv.delivered hinv.own.slotsPtr_lt
    (hinv.relies act.pid) hresize.power
  refine ⟨hown, hlock, hstep.wellformed, hstep.delivered, ?_, sole_step hinv.writer fun hw => ?_,
    sole_step hinv.reader fun hr => ?_⟩
  · exact State.forall_put (P := fun _ (here : Local) => here.Relies w) hstep.relies
      fun p hp => hstep.others _ (hinv.alongside hswitch hresize hp) (hinv.relies p)
  · exact (hmove.spscWriter hw).imp id fun ⟨nonblock, u, hhere, hm⟩ =>
      hsole.writer nonblock u hhere hm
  · exact (hmove.spscReader hr).imp id fun ⟨nonblock, u, hhere, hm⟩ =>
      hsole.reader nonblock u hhere hm

theorem messageInv_boot (h : Wellformed dev) : MessageInv (preloaded dev (boot dev)) where
  own := ⟨(ownInv_boot dev).1, (ownInv_boot dev).2, nofun, nofun, nofun, nofun⟩
  lock := lockInv_boot dev
  wellformed := h
  delivered := delivered_preloaded dev
  relies _ := trivial
  writer _ _ := nofun
  reader _ _ := nofun

theorem messageInv_run {acts : List (Act Choice)} (hdev : Wellformed dev)
    (hcontract : Along driver Contract (boot dev) acts)
    (hclear : Along driver ResizesClear (boot dev) acts)
    (hrun : run driver (boot dev) acts = some s) : MessageInv (preloaded dev s) := by
  have hstep (s : System) (act : Act Choice) (t : System) (hinv : MessageInv (preloaded dev s))
      (hok : Contract s act ∧ ResizesClear s act) (h : step driver s act = some t) :
      MessageInv (preloaded dev t) :=
    messageInv_step hinv ⟨⟨hok.1.1.writer, hok.1.1.reader⟩, hok.1.2⟩
      ⟨hok.2.clear, hok.2.fits, hok.2.power⟩ (step_preloaded dev h)
  exact run_invariant hstep (messageInv_boot hdev) (hcontract.and hclear) hrun

end Invariant

end Kbuf
