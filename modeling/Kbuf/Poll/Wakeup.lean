import Kbuf.Poll.Effects

namespace Kbuf

open Interleaving FreeRunning

section Driving

variable {s t : UsersSystem} {act : Act UserChoice} {w w' : World} {here next : Local}

theorem aside_of_outside (hhere : here = .idle ∨ ∃ ret, here = .done ret)
    (hw : ∃ reads writes, w' = { w with readWq := reads, writeWq := writes })
    (hnext : next.away = true) : Aside w here w' next := by
  rcases hhere with rfl | ⟨ret, rfl⟩
  · exact ⟨hw, rfl, fun side => by cases side <;> rfl, hnext⟩
  · exact ⟨hw, rfl, fun side => by cases side <;> rfl, hnext⟩

-- Seen from the driver, a poller takes the lock, tests the ring and drops the lock as the
-- driver does, and all its other steps are taken outside.
theorem PollerMove.drive {events : BitVec 32} {me : Nat} {pc after : PollerPc}
    (h : PollerMove events me w pc w' after) :
    driver me .go pc.driving w = some (w', after.driving) ∨
      Aside w pc.driving w' after.driving := by
  cases h with
  | lock hl =>
      left
      simp [driver, PollerPc.driving, pollStep, World.acquire, hl, Next.lift]
  | test | unlock => exact Or.inl rfl
  | queueRead | queueWrite | sampleSpsc | sampleBlocking | empty | emptyCons | full | fullCons
  | again | giveUp | leaveRead | leaveWrite =>
      exact Or.inr (aside_of_outside (Or.inl rfl) ⟨_, _, rfl⟩ rfl)
  | sleep | ready => exact Or.inr (aside_of_outside (Or.inr ⟨_, rfl⟩) ⟨_, _, rfl⟩ rfl)

theorem UserMove.drive {me : Nat} {choice : UserChoice} {there after : Local ⊕ Poller}
    (h : UserMove me w choice there w' after) :
    (∃ own, (∀ request, own = .start request → choice = .call (.start request)) ∧
      driver me own (driving there) w = some (w', driving after)) ∨
    Aside w (driving there) w' (driving after) := by
  cases h with
  | @call own _ _ _ hd => exact Or.inl ⟨own, fun _ hr => by rw [hr], hd⟩
  | @enter _ _ request => exact Or.inl ⟨.start request, fun _ hr => by rw [hr], rfl⟩
  | poll hhere =>
      right
      refine aside_of_outside ?_ ⟨_, _, rfl⟩ rfl
      rcases hhere with rfl | ⟨ret, rfl⟩ | ⟨old, mask, rfl⟩
      · exact Or.inl rfl
      · exact Or.inr ⟨ret, rfl⟩
      · exact Or.inl rfl
  | go hstart hgo =>
      rcases hgo.drive with hd | haside
      · exact Or.inl ⟨.go, fun _ hr => (by cases hr), hd⟩
      · exact Or.inr haside

theorem drivingOf_step (h : step users s act = some t) :
    (∃ own, (∀ request, own = .start request → act.choice = .call (.start request)) ∧
      step driver (drivingOf s) ⟨act.pid, own⟩ = some (drivingOf t)) ∨
    ∃ w next, Aside s.shared (driving (s.locals act.pid)) w next ∧
      drivingOf t = (drivingOf s).put act.pid (w, next) := by
  obtain ⟨w, after, hmove, rfl⟩ := users_step_move h
  rw [drivingOf_put]
  rcases hmove.drive with ⟨own, hown, hd⟩ | haside
  · left
    refine ⟨own, hown, ?_⟩
    rw [step]
    exact Option.map_eq_some_iff.mpr ⟨_, hd, rfl⟩
  · exact Or.inr ⟨w, _, haside, rfl⟩

end Driving

section Aside

variable {s : System} {p : Nat} {w : World} {next : Local}

theorem away_holds (h : next.away = true) : next.holds = false := by
  unfold Local.away at h
  split at h <;> first | rfl | cases h

theorem away_inBlocking (h : next.away = true) : next.InBlocking := by
  unfold Local.away at h
  split at h <;> trivial

theorem LockInv.aside (hinv : LockInv s) (h : Aside s.shared (s.locals p) w next) :
    LockInv (s.put p (w, next)) := by
  obtain ⟨reads, writes, rfl⟩ := h.world
  refine State.forall_put (P := fun q (here : Local) => here.holds = true ↔ s.shared.lock = some q)
    ?_ fun q _ => hinv q
  have hp := hinv p
  rw [h.here_holds] at hp
  rw [away_holds h.next_away]
  exact hp

theorem CountInv.aside (hinv : CountInv s) (h : Aside s.shared (s.locals p) w next) :
    CountInv (s.put p (w, next)) := by
  have hlock := hinv.lock.aside h
  have haway := h.next_away
  obtain ⟨reads, writes, rfl⟩ := h.world
  refine ⟨hlock, hinv.bounds, State.forall_put
    (P := fun _ (here : Local) => here.Checked s.shared.dev) ?_ fun q _ => hinv.checked q⟩
  unfold Local.away at haway
  split at haway <;> trivial

theorem SpscInv.aside {roles : Roles} (hinv : SpscInv roles s)
    (h : Aside s.shared (s.locals p) w next) : SpscInv roles (s.put p (w, next)) := by
  have haway := h.next_away
  have hnext : next.owned = none ∧ ∀ w, next.SpscOk roles w p := by
    unfold Local.away at haway
    split at haway <;> first | exact ⟨rfl, fun _ => trivial⟩ | cases haway
  obtain ⟨reads, writes, rfl⟩ := h.world
  refine ⟨hinv.own.put hinv.own.slotsPtr_lt hinv.own.slotsPtr_live (fun ptr ho => ?_)
    (fun ptr ho => ?_) fun _ _ _ ho => ?_, ?_, ?_⟩
  · rw [hnext.1] at ho
    cases ho
  · rw [hnext.1] at ho
    cases ho
  · exact ⟨(hinv.own.owned ho).lt, (hinv.own.owned ho).ne, (hinv.own.owned ho).live⟩
  · exact ⟨hinv.ring.mode, hinv.ring.geometry, hinv.ring.ring, hinv.ring.delivered.of_eq rfl rfl⟩
  · refine State.forall_put (P := fun q (here : Local) => here.SpscOk roles
      { s.shared with readWq := reads, writeWq := writes } q) (hnext.2 _) fun q _ => ?_
    have hq := hinv.local_ok q
    generalize s.locals q = there at hq
    cases there with
    | resize rq pc =>
        refine ⟨hq.1, ?_⟩
        cases pc <;> exact hq.2
    | idle | readEntry | readBlocking | readSpsc | writeEntry | writeBlocking | writeSpsc
    | smode | reset | getstats | poll | done => exact hq

end Aside

section Invariant

-- In blocking mode everything but a switch to SPSC mode is allowed; in SPSC mode one
-- producer and one consumer, and whatever does not change the ring.
def PollMode (mode : Mode) (producer consumer p : Nat) : Request → Prop :=
  match mode with
  | .BLOCKING => StaysBlocking p
  | .SPSC => (Roles.pair producer consumer).allows p

def UserStarting (ok : Nat → Request → Prop) (_ : UsersSystem) (act : Act UserChoice) : Prop :=
  ∀ request, act.choice = .call (.start request) → ok act.pid request

-- A poller is on the path of its mode, and asleep only if nothing it asked for was there.
def Poller.Ok (mode : Mode) (poller : Poller) : Prop :=
  match poller.pc with
  | .empty | .emptyCons _ | .full _ | .fullCons .. => mode = .SPSC
  | .lock | .test | .unlock .. => mode = .BLOCKING
  | .asleep isEmpty isFull => pollMask isEmpty isFull &&& poller.events = 0
  | _ => True

structure UserInv (mode : Mode) (producer consumer : Nat) (s : UsersSystem) : Prop where
  mode_eq : s.shared.dev.mode = mode
  lock : LockInv (drivingOf s)
  blocking : mode = .BLOCKING → CountInv (drivingOf s) ∧ ∀ p, (driving (s.locals p)).InBlocking
  spsc : mode = .SPSC → SpscInv (Roles.pair producer consumer) (drivingOf s)
  pollers : ∀ p poller, s.locals p = .inr poller → poller.Ok mode
  owed : ∀ side p, p ∈ s.shared.waiters side → Believes s.shared.dev side (s.locals p) ∨
    ∃ q, (driving (s.locals q)).owesWake side = true

variable {mode : Mode} {producer consumer : Nat} {dev : Dev} {s t : UsersSystem}
  {act : Act UserChoice} {acts : List (Act UserChoice)}

theorem PollerMove.ok {events : BitVec 32} {me : Nat} {w w' : World} {pc next : PollerPc}
    (hm : w.dev.mode = mode) (hok : Poller.Ok mode ⟨events, pc⟩)
    (h : PollerMove events me w pc w' next) : Poller.Ok mode ⟨events, next⟩ := by
  cases h with
  | sampleSpsc hs | sampleBlocking hs => exact hm.symm.trans hs
  | empty | emptyCons | full | lock | test => exact hok
  | sleep hmask => exact hmask
  | queueRead | queueWrite | fullCons | unlock | ready | again | giveUp | leaveRead | leaveWrite =>
      trivial

-- What a poller concludes follows from what it believed.
theorem PollerMove.believes {events : BitVec 32} {me : Nat} {w w' : World} {pc next : PollerPc}
    {side : Wq} (hok : Poller.Ok w.dev.mode ⟨events, pc⟩)
    (hbefore : pc.Believes w.dev side) (h : PollerMove events me w pc w' next) :
    next.Believes w'.dev side := by
  rw [h.dev_eq]
  cases side with
  | read =>
      cases h with
      | empty => exact fun _ => rfl
      | @emptyCons prod =>
          have hm : w.dev.mode = .SPSC := hok
          intro he
          simp only [Dev.stuck, hm, spscIsEmpty, decide_eq_true_eq]
          exact (hbefore hm).trans (of_decide_eq_true he)
      | test =>
          have hm : w.dev.mode = .BLOCKING := hok
          intro he
          simp only [Dev.stuck, hm]
          exact he
      | full | fullCons | unlock | sleep => exact hbefore
      | queueRead | queueWrite | sampleSpsc | sampleBlocking | lock | ready | again | giveUp
      | leaveRead | leaveWrite => trivial
  | write =>
      cases h with
      | full => exact fun _ => Nat.le_refl _
      | @fullCons isEmpty prod =>
          have hm : w.dev.mode = .SPSC := hok
          intro hf
          have hle := hbefore hm
          have hfull : w.dev.numBuffers ≤ depth prod w.dev.consIdx := of_decide_eq_true hf
          simp only [Dev.stuck, hm, spscIsFull, decide_eq_true_eq]
          exact Nat.le_trans hfull hle
      | test =>
          have hm : w.dev.mode = .BLOCKING := hok
          intro hf
          simp only [Dev.stuck, hm]
          exact hf
      | unlock | sleep => exact hbefore
      | queueRead | queueWrite | sampleSpsc | sampleBlocking | empty | emptyCons | lock | ready
      | again | giveUp | leaveRead | leaveWrite => trivial

-- A poller queues itself only before it looks at the ring.
theorem PollerMove.queued {events : BitVec 32} {me : Nat} {w w' : World} {pc next : PollerPc}
    {side : Wq} (h : PollerMove events me w pc w' next) (hmem : me ∈ w'.waiters side) :
    me ∈ w.waiters side ∨ next.Believes w'.dev side := by
  cases h with
  | queueRead | queueWrite | again | leaveRead | leaveWrite => cases side <;> exact Or.inr trivial
  | sampleSpsc | sampleBlocking | empty | emptyCons | full | fullCons | lock | test | unlock | sleep
  | ready | giveUp => cases side <;> exact Or.inl hmem

-- A process that owes nothing and keeps the device as it is.
theorem UserInv.owed_beside {w : World} {after : Local ⊕ Poller} {me p : Nat} {side : Wq}
    (hinv : UserInv mode producer consumer s)
    (howes : (driving (s.locals me)).owesWake side = false) (hdev : w.dev = s.shared.dev)
    (hothers : p ≠ me → p ∈ w.waiters side → p ∈ s.shared.waiters side)
    (hself : p = me → p ∈ w.waiters side → Believes w.dev side after ∨
      ∃ q, (driving (s.locals q)).owesWake side = true)
    (hmem : p ∈ w.waiters side) :
    Believes w.dev side ((s.put me (w, after)).locals p) ∨
      ∃ q, (driving ((s.put me (w, after)).locals q)).owesWake side = true := by
  have hstill (hq : ∃ q, (driving (s.locals q)).owesWake side = true) :
      ∃ q, (driving ((s.put me (w, after)).locals q)).owesWake side = true := by
    obtain ⟨q, hq⟩ := hq
    have hne : q ≠ me := by
      rintro rfl
      rw [howes] at hq
      cases hq
    exact ⟨q, by rw [State.put_locals_of_ne _ _ hne]; exact hq⟩
  by_cases hp : p = me
  · subst hp
    rw [State.put_locals_self]
    exact (hself rfl hmem).imp_right hstill
  · rw [State.put_locals_of_ne _ _ hp, hdev]
    exact (hinv.owed side p (hothers hp hmem)).imp_right hstill

theorem UserInv.owed_poll {events : BitVec 32} {me p : Nat} {side : Wq}
    (hinv : UserInv mode producer consumer s)
    (hidle : s.locals me = .inl .idle ∨ (∃ ret, s.locals me = .inl (.done ret)) ∨
      ∃ old mask, s.locals me = .inr ⟨old, .returned mask⟩)
    (hmem : p ∈ s.shared.waiters side) :
    Believes s.shared.dev side ((s.put me (s.shared, .inr ⟨events, .queueRead⟩)).locals p) ∨
      ∃ q, (driving ((s.put me (s.shared, .inr ⟨events, .queueRead⟩)).locals q)).owesWake side =
        true := by
  refine hinv.owed_beside ?_ rfl (fun _ h => h) (fun _ _ => ?_) hmem
  · rcases hidle with h | ⟨ret, h⟩ | ⟨old, mask, h⟩
    · rw [h]
      cases side <;> rfl
    · rw [h]
      cases side <;> rfl
    · rw [h]
      cases side <;> rfl
  · cases side <;> exact Or.inl trivial

theorem UserInv.owed_go {w : World} {events : BitVec 32} {pc next : PollerPc} {me p : Nat}
    {side : Wq} (hinv : UserInv mode producer consumer s) (hhere : s.locals me = .inr ⟨events, pc⟩)
    (h : PollerMove events me s.shared pc w next) (hmem : p ∈ w.waiters side) :
    Believes w.dev side ((s.put me (w, .inr ⟨events, next⟩)).locals p) ∨
      ∃ q, (driving ((s.put me (w, .inr ⟨events, next⟩)).locals q)).owesWake side = true := by
  refine hinv.owed_beside ?_ h.dev_eq (fun hp hm => (h.mem_waiters hp).mp hm) ?_ hmem
  · rw [hhere]
    cases pc <;> cases side <;> rfl
  · rintro rfl hm
    rcases h.queued hm with hbefore | hnew
    · refine (hinv.owed side p hbefore).imp_left fun hbelief => ?_
      rw [hhere] at hbelief
      refine h.believes ?_ hbelief
      rw [hinv.mode_eq]
      exact hinv.pollers p _ hhere
    · exact Or.inl hnew

theorem UserInv.owed_call {w : World} {here next : Local} {me p : Nat} {side : Wq}
    (hinv : UserInv mode producer consumer s) (hhere : driving (s.locals me) = here)
    (h : UserEffect side me s.shared here w next) (hmem : p ∈ w.waiters side) :
    Believes w.dev side ((s.put me (w, .inl next)).locals p) ∨
      ∃ q, (driving ((s.put me (w, .inl next)).locals q)).owesWake side = true := by
  cases h with
  | owes ho => exact Or.inr ⟨me, by rw [State.put_locals_self]; exact ho⟩
  | wakes hw =>
      rw [hw] at hmem
      cases hmem
  | quiet hbelief howes hparked hwaiters =>
      by_cases hp : p = me
      · subst hp
        rw [State.put_locals_self]
        exact Or.inl hparked
      · rw [State.put_locals_of_ne _ _ hp]
        rcases hinv.owed side p (hwaiters p hp hmem) with hbefore | ⟨q, hq⟩
        · exact Or.inl (hbelief _ hbefore)
        · right
          have hne : q ≠ me := by
            rintro rfl
            rw [hhere, howes] at hq
            cases hq
          exact ⟨q, by rw [State.put_locals_of_ne _ _ hne]; exact hq⟩

theorem UserInv.effect {w : World} {next : Local} {me : Nat} {own : Choice}
    (hinv : UserInv mode producer consumer s)
    (hstart : ∀ request, own = .start request → PollMode mode producer consumer me request)
    (hd : driver me own (driving (s.locals me)) s.shared = some (w, next)) (side : Wq) :
    UserEffect side me s.shared (driving (s.locals me)) w next := by
  have hmove := driver_move hd
  cases hmode : mode with
  | BLOCKING =>
      subst hmode
      obtain ⟨hcount, hlocal⟩ := hinv.blocking rfl
      obtain ⟨hm, -⟩ := hmove.in_blocking hinv.mode_eq (hlocal me) hstart
      exact (hmove.wake_effect_blocking hinv.mode_eq hcount.bounds (hcount.checked me)
        (hlocal me)).user hm (hlocal me)
  | SPSC =>
      subst hmode
      exact hmove.user_effect_spsc (hinv.spsc rfl).ring ((hinv.spsc rfl).local_ok me)

-- The driver's own invariants, through steps of the driver and steps beside it.
theorem UserInv.driver_step (hinv : UserInv mode producer consumer s)
    (hok : UserStarting (PollMode mode producer consumer) s act) (h : step users s act = some t) :
    t.shared.dev.mode = mode ∧ LockInv (drivingOf t) ∧
      (mode = .BLOCKING → CountInv (drivingOf t) ∧ ∀ p, (driving (t.locals p)).InBlocking) ∧
      (mode = .SPSC → SpscInv (Roles.pair producer consumer) (drivingOf t)) := by
  rcases drivingOf_step h with ⟨own, hown, hstep⟩ | ⟨w, next, haside, hput⟩
  · have hstart : Starting (PollMode mode producer consumer) (drivingOf s) ⟨act.pid, own⟩ :=
      fun request hr => hok request (hown request hr)
    have hblocking (hm : mode = .BLOCKING) : t.shared.dev.mode = .BLOCKING ∧
        ∀ p, (driving (t.locals p)).InBlocking := by
      obtain ⟨-, hlocal⟩ := hinv.blocking hm
      subst hm
      obtain ⟨w, next, hmove, hput⟩ := step_move hstep
      obtain ⟨hmode, hnext⟩ := hmove.in_blocking hinv.mode_eq (hlocal act.pid) hstart
      have hlocals : ∀ p, ((drivingOf t).locals p).InBlocking := by
        rw [hput]
        exact State.forall_put (P := fun _ (here : Local) => here.InBlocking) hnext
          fun q _ => hlocal q
      exact ⟨(congrArg (fun s : System => s.shared.dev.mode) hput).trans hmode, hlocals⟩
    have hspsc (hm : mode = .SPSC) : SpscInv (Roles.pair producer consumer) (drivingOf t) := by
      subst hm
      exact (hinv.spsc rfl).pair_step hstart hstep
    refine ⟨?_, lockInv_step hinv.lock hstep, fun hm => ⟨?_, (hblocking hm).2⟩, hspsc⟩
    · cases hm : mode with
      | BLOCKING => exact (hblocking hm).1
      | SPSC => exact (hspsc hm).ring.mode
    · exact countInv_step (hinv.blocking hm).1 hstep
  · have hmode : t.shared.dev.mode = mode := by
      have hshared := congrArg (fun s : System => s.shared.dev.mode) hput
      obtain ⟨reads, writes, rfl⟩ := haside.world
      exact hshared.trans hinv.mode_eq
    have hlocals (hm : mode = .BLOCKING) : ∀ p, ((drivingOf t).locals p).InBlocking := by
      rw [hput]
      exact State.forall_put (P := fun _ (here : Local) => here.InBlocking)
        (away_inBlocking haside.next_away) fun q _ => (hinv.blocking hm).2 q
    rw [hput]
    rw [hput] at hlocals
    refine ⟨hmode, hinv.lock.aside haside, fun hm => ⟨(hinv.blocking hm).1.aside haside, ?_⟩,
      fun hm => (hinv.spsc hm).aside haside⟩
    rw [← hput] at hlocals
    exact hlocals hm

theorem UserInv.pollers_step (hinv : UserInv mode producer consumer s)
    (h : step users s act = some t) (p : Nat) (poller : Poller) (hp : t.locals p = .inr poller) :
    poller.Ok mode := by
  obtain ⟨w, after, hmove, rfl⟩ := users_step_move h
  refine State.forall_put (P := fun _ (here : Local ⊕ Poller) => ∀ poller, here = .inr poller →
    poller.Ok mode) ?_ (fun q _ poller hq => hinv.pollers q poller hq) p poller hp
  have hself := hinv.pollers act.pid
  generalize s.locals act.pid = there at hmove hself
  generalize act.choice = choice at hmove
  intro poller hpoller
  cases hmove with
  | call | enter => cases hpoller
  | poll =>
      obtain rfl := Sum.inr.inj hpoller
      trivial
  | go _ hgo =>
      obtain rfl := Sum.inr.inj hpoller
      exact hgo.ok hinv.mode_eq (hself _ rfl)

theorem userInv_step (hinv : UserInv mode producer consumer s)
    (hok : UserStarting (PollMode mode producer consumer) s act) (h : step users s act = some t) :
    UserInv mode producer consumer t := by
  obtain ⟨hmode, hlock, hblocking, hspsc⟩ := hinv.driver_step hok h
  refine ⟨hmode, hlock, hblocking, hspsc, hinv.pollers_step h, fun side p hmem => ?_⟩
  obtain ⟨w, after, hmove, rfl⟩ := users_step_move h
  generalize hhere : s.locals act.pid = there at hmove
  generalize hchoice : act.choice = choice at hmove
  cases hmove with
  | @call own here next _ hd =>
      have hd' : driver act.pid own (driving (s.locals act.pid)) s.shared = some (w, next) := by
        rw [hhere]
        exact hd
      refine hinv.owed_call rfl (hinv.effect (fun request hr => ?_) hd' side) hmem
      exact hok request (by rw [hchoice, hr])
  | @enter _ _ request =>
      have hd' : driver act.pid (.start request) (driving (s.locals act.pid)) s.shared =
          some (s.shared, request.enter) := by
        rw [hhere]
        rfl
      refine hinv.owed_call rfl (hinv.effect (fun request hr => ?_) hd' side) hmem
      exact hok request (by rw [hchoice, hr])
  | poll hidle =>
      rw [← hhere] at hidle
      exact hinv.owed_poll hidle hmem
  | go _ hgo => exact hinv.owed_go hhere hgo hmem

theorem userInv_boot (hdev : Wellformed dev) (hempty : queue dev = []) :
    UserInv dev.mode producer consumer (usersBoot dev) where
  mode_eq := rfl
  lock := lockInv_boot dev
  blocking hm := by
    refine ⟨countInv_boot ?_, fun _ => trivial⟩
    have hr : BlockingRing dev := by simpa only [Discipline, hm] using hdev.discipline
    exact hr.countBounds hdev.geometry
  spsc hm := spscInv_boot hdev hm hempty
  pollers _ _ hp := by cases hp
  owed side p hp := by cases side <;> cases hp

theorem userInv_run (hdev : Wellformed dev) (hempty : queue dev = [])
    (hreq : Along users (UserStarting (PollMode dev.mode producer consumer)) (usersBoot dev) acts)
    (hrun : run users (usersBoot dev) acts = some s) : UserInv dev.mode producer consumer s :=
  run_invariant (fun _ _ _ hinv hok h => userInv_step hinv hok h) (userInv_boot hdev hempty) hreq
    hrun

end Invariant

section Events

-- The events that tell of one side.
def Wq.events : Wq → BitVec 32
  | .read => EPOLLIN ||| EPOLLRDNORM
  | .write => EPOLLOUT ||| EPOLLWRNORM

theorem or_and_eq_zero {a b c : BitVec 32} (h : (a ||| b) &&& c = 0) :
    c &&& a = 0 ∧ c &&& b = 0 := by
  rw [BitVec.and_comm, BitVec.and_or_distrib_left] at h
  exact BitVec.or_eq_zero_iff.mp h

-- Whoever got nothing it asked for has seen that side stuck.
theorem isEmpty_of_quiet {events : BitVec 32} {isEmpty isFull : Bool}
    (h : pollMask isEmpty isFull &&& events = 0) (hasks : events &&& Wq.read.events ≠ 0) :
    isEmpty = true := by
  cases isEmpty with
  | true => rfl
  | false => exact absurd (or_and_eq_zero h).1 hasks

theorem isFull_of_quiet {events : BitVec 32} {isEmpty isFull : Bool}
    (h : pollMask isEmpty isFull &&& events = 0) (hasks : events &&& Wq.write.events ≠ 0) :
    isFull = true := by
  cases isFull with
  | true => rfl
  | false => exact absurd (or_and_eq_zero h).2 hasks

end Events

section Runs

variable {producer consumer : Nat} {dev : Dev} {s : UsersSystem} {acts : List (Act UserChoice)}

theorem UserInv.poll_owed {mode : Mode} (hinv : UserInv mode producer consumer s) {p : Nat}
    {events : BitVec 32} {isEmpty isFull : Bool}
    (hasleep : s.locals p = .inr ⟨events, .asleep isEmpty isFull⟩) {side : Wq}
    (hasks : events &&& side.events ≠ 0) (hwait : p ∈ s.shared.waiters side)
    (hready : s.shared.dev.stuck side = false) :
    ∃ q here, s.locals q = .inl here ∧ here.owesWake side = true := by
  have hquiet : pollMask isEmpty isFull &&& events = 0 := hinv.pollers p _ hasleep
  rcases hinv.owed side p hwait with hbelief | ⟨q, hq⟩
  · exfalso
    rw [hasleep] at hbelief
    have hstuck : s.shared.dev.stuck side = true := by
      cases side with
      | read => exact hbelief (isEmpty_of_quiet hquiet hasks)
      | write => exact hbelief (isFull_of_quiet hquiet hasks)
    rw [hready] at hstuck
    cases hstuck
  · rcases hhere : s.locals q with here | ⟨other, pc⟩
    · rw [hhere] at hq
      exact ⟨q, here, hhere, hq⟩
    · rw [hhere] at hq
      cases pc <;> cases side <;> cases hq

-- If a process sleeps in poll(2) although the ring has what it asked for, a wakeup of its
-- queue is on the way, in SPSC mode too, where kbuf_poll takes no lock and may conclude
-- from two indices of different times that the ring is full.
theorem poll_no_lost_wakeup (hdev : Wellformed dev) (hempty : queue dev = [])
    (hreq : Along users (UserStarting (PollMode dev.mode producer consumer)) (usersBoot dev) acts)
    (hrun : run users (usersBoot dev) acts = some s) {p : Nat} {events : BitVec 32}
    {isEmpty isFull : Bool} (hasleep : s.locals p = .inr ⟨events, .asleep isEmpty isFull⟩)
    {side : Wq} (hasks : events &&& side.events ≠ 0) (hwait : p ∈ s.shared.waiters side)
    (hready : s.shared.dev.stuck side = false) :
    ∃ q here, s.locals q = .inl here ∧ here.owesWake side = true :=
  (userInv_run hdev hempty hreq hrun).poll_owed hasleep hasks hwait hready

end Runs

-- A poller loads `prod_idx` of an empty ring; a message passes through the ring and the read
-- stops before its wakeup. The poller then takes the ring for full and falls asleep.
def pollAcrossHandover : List (Act UserChoice) :=
  ⟨2, .poll EPOLLOUT⟩ :: List.replicate 6 ⟨2, .call .go⟩ ++
    ⟨0, .call (.start (.write true ⟨[7], 1⟩))⟩ :: List.replicate 17 ⟨0, .call .go⟩ ++
    ⟨1, .call (.start (.read true ⟨1, 1⟩))⟩ :: List.replicate 8 ⟨1, .call .go⟩ ++
    List.replicate 2 ⟨2, .call .go⟩

theorem poll_no_lost_wakeup_acrossHandover :
    ∃ s, run users (usersBoot (emptyDev .SPSC 1 1)) pollAcrossHandover = some s ∧
      s.locals 2 = .inr ⟨EPOLLOUT, .asleep true true⟩ ∧ 2 ∈ s.shared.waiters .write ∧
      occupancy s.shared.dev = 0 ∧
      ∃ q here, s.locals q = .inl here ∧ here.owesWake .write = true := by
  have hdev : Wellformed (emptyDev .SPSC 1 1) :=
    emptyDev_wellformed _ _ _ (by decide) (by decide) (by decide) (by decide) fun _ => ⟨0, rfl⟩
  obtain ⟨s, hrun, hend⟩ := Option.map_eq_some_iff.mp
    (show (run users (usersBoot (emptyDev .SPSC 1 1)) pollAcrossHandover).map
      (fun s => (s.locals 2, s.shared.waiters .write, s.shared.dev.stuck .write,
        occupancy s.shared.dev)) =
        some (.inr ⟨EPOLLOUT, .asleep true true⟩, [2], false, 0) from rfl)
  obtain ⟨hasleep, hrest⟩ := Prod.mk.inj hend
  obtain ⟨hwaiters, hrest⟩ := Prod.mk.inj hrest
  obtain ⟨hready, hocc⟩ := Prod.mk.inj hrest
  have hwait : 2 ∈ s.shared.waiters .write := by simp [hwaiters]
  have hreq : Along users (UserStarting (PollMode .SPSC 0 1)) (usersBoot (emptyDev .SPSC 1 1))
      pollAcrossHandover := by
    refine along_of_mem fun _ act hact request hr => ?_
    simp only [pollAcrossHandover, List.cons_append, List.append_assoc, List.mem_cons,
      List.mem_append, List.mem_replicate] at hact
    rcases hact with rfl | ⟨-, rfl⟩ | rfl | ⟨-, rfl⟩ | rfl | ⟨-, rfl⟩ | ⟨-, rfl⟩ <;>
      cases hr <;> rfl
  exact ⟨s, hrun, hasleep, hwait, hocc,
    poll_no_lost_wakeup hdev rfl hreq hrun hasleep (by decide) hwait hready⟩

end Kbuf
