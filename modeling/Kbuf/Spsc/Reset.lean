import Kbuf.Spsc.Counting

namespace Kbuf

open Interleaving CounterPair

section Definitions

-- The calls that return from a run with the result asked for.
def returnsIn (returned : Local → Bool) : System → List (Act Choice) → Nat
  | _, [] => 0
  | s, act :: acts =>
      match step driver s act with
      | none => 0
      | some t => (if returned (t.locals act.pid) then 1 else 0) + returnsIn returned t acts

-- A RESET that has not made its store number `first`.
def Local.toClear (first : Nat) : Local → Bool
  | .reset .lock => true
  | .reset (.store field) => field ≤ first
  | _ => false

-- Once the RESET of `r` has cleared the total, the counters hold only what was
-- unfinished when `bound` transfers were.
def Side.Fresh (side : Side) (p r bound : Nat) (s : System) : Prop :=
  ((s.locals r).toClear side.first = true ∧ bound ≤ (side.gauge p s).finished) ∨
    Gauge.Counts bound (side.gauge p s)

-- Nobody is inside the driver.
def AllReturned (s : System) : Prop := ∀ p, s.locals p = .idle ∨ ∃ ret, s.locals p = .done ret

end Definitions

section Steps

variable {side : Side} {p r bound : Nat} {s t : System} {act : Act Choice}

theorem Side.Moved.finished (htracked : side.Tracked p s) (h : side.Moved p s act.pid t) :
    (side.gauge p t).finished =
      (side.gauge p s).finished + if side.returned (t.locals act.pid) then 1 else 0 := by
  rw [Gauge.finished_step htracked.pending h.step]
  simp only [h.returned]

theorem reset_move {pc : ResetPc} (hhere : s.locals act.pid = .reset pc)
    (h : step driver s act = some t) :
    ∃ w next, ResetMove act.pid s.shared pc w next ∧ t = s.put act.pid (w, next.lift .reset) := by
  obtain ⟨⟨w, next⟩, hp, rfl⟩ := step_eq_some h
  rw [hhere] at hp
  obtain ⟨after, ha, rfl⟩ := lifted_eq_some hp
  exact ⟨w, after, resetStep_move ha, rfl⟩

-- A step leaves a RESET before its store number `first`, or is that store.
theorem toClear_step {first : Nat} (hfirst : first < 6) (h : step driver s act = some t)
    (hr : (s.locals r).toClear first = true) :
    (t.locals r).toClear first = true ∨
      s.locals r = .reset (.store first) ∧ act.pid = r ∧ t = resetStored s r first := by
  by_cases hpid : r = act.pid
  · subst hpid
    cases hhere : s.locals act.pid with
    | reset pc =>
        rw [hhere] at hr
        obtain ⟨w, next, hmove, rfl⟩ := reset_move hhere h
        cases hmove with
        | lock =>
            left
            rw [State.put_locals_self]
            exact decide_eq_true (Nat.zero_le first)
        | @store field =>
            have hle : field ≤ first := of_decide_eq_true hr
            by_cases heq : field = first
            · subst heq
              exact .inr ⟨rfl, rfl, rfl⟩
            · left
              rw [State.put_locals_self, if_pos (by omega)]
              exact decide_eq_true (by omega)
        | unlock => cases hr
    | idle | readEntry | readBlocking | readSpsc | writeEntry | writeBlocking | writeSpsc | resize
    | smode | getstats | poll | done =>
        rw [hhere] at hr
        cases hr
  · left
    obtain ⟨next, -, rfl⟩ := step_eq_some h
    rw [State.put_locals_of_ne _ _ hpid]
    exact hr

theorem Side.Fresh.step (hl : side.Lawful) (htracked : side.Tracked p s)
    (hapart : side.Apart s act) (hmoved : side.Moved p s act.pid t)
    (h : step driver s act = some t) (hfresh : side.Fresh p r bound s) :
    side.Fresh p r bound t := by
  rcases hfresh with ⟨hr, hbound⟩ | hcounts
  · have horder := hl.order
    have hlast := hl.last_lt
    rcases toClear_step (by omega) h hr with hnext | ⟨hhere, hpid, rfl⟩
    · left
      have hfinished := hmoved.finished htracked
      exact ⟨hnext, by omega⟩
    · -- The total is cleared at a settled point.
      right
      subst hpid
      rw [side.gauge_first hl hhere]
      refine Gauge.counts_clear htracked.pending (hapart.total hhere p) ?_
      exact Nat.le_trans hbound (Gauge.finished_le_tallied _)
  · exact .inr (Gauge.counts_step hcounts hmoved.step)

end Steps

section Runs

variable {producer consumer r : Nat} {dev : Dev} {s begun : System}
  {before acts : List (Act Choice)}

-- What the two sides have to say about a RESET that began with `produces` and
-- `consumes` transfers finished.
structure ResetInv (producer consumer r produces consumes : Nat) (s : System) : Prop where
  counting : CountingInv producer consumer s
  produce : produceSide.Fresh producer r produces s
  consume : consumeSide.Fresh consumer r consumes s

theorem resetInv_step {act : Act Choice} {t : System} {produces consumes : Nat}
    (hinv : ResetInv producer consumer r produces consumes s)
    (hstart : Starting (Roles.pair producer consumer).allows s act) (hapart : ResetsApart s act)
    (h : step driver s act = some t) : ResetInv producer consumer r produces consumes t where
  counting := countingInv_step hinv.counting hstart hapart h
  produce := hinv.produce.step produceSide_lawful hinv.counting.produce hapart.1
    (hinv.counting.produce_moved hapart.1 h) h
  consume := hinv.consume.step consumeSide_lawful hinv.counting.consume hapart.2
    (hinv.counting.consume_moved hapart.2 h) h

-- The transfers finished in a run are those that return in it.
theorem finished_run {acts : List (Act Choice)} (hinv : CountingInv producer consumer begun)
    (hok : Along driver (fun s act => Starting (Roles.pair producer consumer).allows s act ∧
      ResetsApart s act) begun acts)
    (hrun : run driver begun acts = some s) :
    (produceSide.gauge producer s).finished =
        (produceSide.gauge producer begun).finished + returnsIn Local.produced begun acts ∧
      (consumeSide.gauge consumer s).finished =
        (consumeSide.gauge consumer begun).finished + returnsIn Local.consumed begun acts := by
  induction acts generalizing begun with
  | nil =>
      obtain rfl := Option.some.inj hrun
      exact ⟨rfl, rfl⟩
  | cons act acts ih =>
      obtain ⟨t, ht, hu⟩ := run_cons hrun
      obtain ⟨hstart, hapart⟩ := hok.1
      have hproduce := (hinv.produce_moved hapart.1 ht).finished hinv.produce
      have hconsume := (hinv.consume_moved hapart.2 ht).finished hinv.consume
      obtain ⟨hp, hc⟩ := ih (countingInv_step hinv hstart hapart ht) (hok.2 t ht) hu
      simp only [returnsIn, ht]
      exact ⟨by rw [hp, hproduce, Nat.add_assoc]; rfl, by rw [hc, hconsume, Nat.add_assoc]; rfl⟩

theorem AllReturned.phase_rest (h : AllReturned s) (p : Nat) :
    (s.locals p).producePhase = .rest ∧ (s.locals p).consumePhase = .rest := by
  rcases h p with hp | ⟨ret, hp⟩ <;> rw [hp] <;> exact ⟨rfl, rfl⟩

theorem AllReturned.not_clearing (h : AllReturned s) (first last : Nat) :
    ¬∃ q, (s.locals q).clearing first last = true := by
  rintro ⟨q, hq⟩
  rcases h q with hp | ⟨ret, hp⟩ <;> rw [hp] at hq <;> cases hq

theorem AllReturned.not_toClear (h : AllReturned s) (q first : Nat) :
    (s.locals q).toClear first ≠ true := by
  intro hq
  rcases h q with hp | ⟨ret, hp⟩ <;> rw [hp] at hq <;> cases hq

-- At rest the counters of a side hold the last transfers, and no more of them than
-- have returned since `bound` were finished.
theorem Side.Fresh.at_rest {side : Side} {p bound : Nat} (hfresh : side.Fresh p r bound s)
    (hall : AllReturned s) (hphase : side.phase (s.locals p) = .rest) :
    ∃ k, bound + k ≤ (side.gauge p s).finished ∧
      side.count s.shared.dev = BitVec.ofNat 64 k ∧
      side.total s.shared.dev = BitVec.ofNat 64
        ((side.items s.shared).drop ((side.items s.shared).length - k)).sum := by
  rcases hfresh with ⟨hr, -⟩ | hcounts
  · exact absurd hr (hall.not_toClear r side.first)
  · obtain ⟨k, hk, hcount, htotal⟩ :=
      hcounts.at_rest hphase (hall.not_clearing side.first side.last)
    have hfinished : (side.gauge p s).finished = (side.gauge p s).items.length := by
      have hrest : (side.gauge p s).phase = .rest := hphase
      simp only [Gauge.finished, hrest]
    exact ⟨k, by omega, hcount, htotal⟩

-- A RESET under way, at the step that began it.
theorem resetInv_begin (hinv : CountingInv producer consumer s)
    (hr : s.locals r = .reset .lock) :
    ResetInv producer consumer r (produceSide.gauge producer s).finished
      (consumeSide.gauge consumer s).finished s where
  counting := hinv
  produce := .inl ⟨by rw [hr]; rfl, Nat.le_refl _⟩
  consume := .inl ⟨by rw [hr]; rfl, Nat.le_refl _⟩

theorem begun_lock {s t : System} {acts : List (Act Choice)}
    (h : run driver s (acts ++ [⟨r, .start .reset⟩]) = some t) : t.locals r = .reset .lock := by
  obtain ⟨u, -, hu⟩ := run_append_eq_some h
  obtain ⟨v, hv, hlast⟩ := run_cons hu
  obtain rfl := Option.some.inj hlast
  obtain ⟨⟨w, next⟩, hp, rfl⟩ := step_eq_some hv
  obtain ⟨-, rfl⟩ := driver_start hp
  exact State.put_locals_self ..

-- After any RESET of a run, so also after the last one to begin: the message
-- counters count some of the last calls, no more than have returned since, and the
-- byte counters the bytes of just these calls.
theorem reset_effective {after : List (Act Choice)} (hdev : Wellformed dev)
    (hmode : dev.mode = .SPSC) (hempty : queue dev = [])
    (hreq : Along driver (Starting (Roles.pair producer consumer).allows) (boot dev)
      ((before ++ [⟨r, .start .reset⟩]) ++ after))
    (hapart : Along driver ResetsApart (boot dev) ((before ++ [⟨r, .start .reset⟩]) ++ after))
    (hbegun : run driver (boot dev) (before ++ [⟨r, .start .reset⟩]) = some begun)
    (hrun : run driver begun after = some s) (hall : AllReturned s) :
    (∃ k, k ≤ returnsIn Local.produced begun after ∧
      s.shared.dev.msgsProduced = BitVec.ofNat 64 k ∧
      s.shared.dev.bytesProduced = BitVec.ofNat 64
        ((s.shared.sent.drop (s.shared.sent.length - k)).map List.length).sum) ∧
    ∃ k, k ≤ returnsIn Local.consumed begun after ∧
      s.shared.dev.msgsConsumed = BitVec.ofNat 64 k ∧
      s.shared.dev.bytesConsumed = BitVec.ofNat 64
        ((s.shared.received.drop (s.shared.received.length - k)).map fun got =>
          got.2.length).sum := by
  obtain ⟨hfirst, hrest⟩ := (hreq.and hapart).split hbegun
  have hcounting : CountingInv producer consumer begun :=
    run_invariant (fun _ _ _ hinv hok h => countingInv_step hinv hok.1 hok.2 h)
      (countingInv_boot hdev hmode hempty) hfirst hbegun
  have hinv := run_invariant (fun _ _ _ hinv hok h => resetInv_step hinv hok.1 hok.2 h)
    (resetInv_begin hcounting (begun_lock hbegun)) hrest hrun
  obtain ⟨hproduced, hconsumed⟩ := finished_run hcounting hrest hrun
  constructor
  · obtain ⟨k, hk, hmsgs, hbytes⟩ := hinv.produce.at_rest hall (hall.phase_rest producer).1
    refine ⟨k, by omega, hmsgs, hbytes.trans ?_⟩
    simp only [produceSide, List.map_drop, List.length_map]
  · obtain ⟨k, hk, hmsgs, hbytes⟩ := hinv.consume.at_rest hall (hall.phase_rest consumer).2
    refine ⟨k, by omega, hmsgs, hbytes.trans ?_⟩
    simp only [consumeSide, List.map_drop, List.length_map]

end Runs

section Races

def Local.outside : Local → Bool
  | .idle | .done _ => true
  | _ => false

theorem allReturned_of_upTo {dev : Dev} {acts : List (Act Choice)} {s : System} (bound : Nat)
    (hrun : run driver (boot dev) acts = some s) (hpids : ∀ act ∈ acts, act.pid < bound)
    (h : ∀ p < bound, (s.locals p).outside = true) : AllReturned s := by
  intro p
  by_cases hp : p < bound
  · have hout := h p hp
    unfold Local.outside at hout
    split at hout
    · exact .inl ‹_›
    · exact .inr ⟨_, ‹_›⟩
    · cases hout
  · refine .inl (run_locals_of_ne hrun fun act hact => ?_)
    have := hpids act hact
    omega

-- One message is accepted and counted, the next is accepted and its count loaded.
def oneAndAHalf : List (Act Choice) :=
  ⟨0, .start (.write true ⟨[7], 1⟩)⟩ :: proceed 0 17 ++
    ⟨0, .start (.write true ⟨[8], 1⟩)⟩ :: proceed 0 12

-- A whole RESET, and then the store of the count.
def resetThenStore : List (Act Choice) := proceed 2 9 ++ proceed 0 5

-- The count of the first message comes back.
theorem reset_undone :
    Along driver (Starting (Roles.pair 0 1).allows) (boot (emptyDev .SPSC 2 1))
        ((oneAndAHalf ++ [⟨2, .start .reset⟩]) ++ resetThenStore) ∧
      ∃ begun s,
        run driver (boot (emptyDev .SPSC 2 1)) (oneAndAHalf ++ [⟨2, .start .reset⟩]) =
          some begun ∧
        run driver begun resetThenStore = some s ∧ AllReturned s ∧
        returnsIn Local.produced begun resetThenStore = 1 ∧
        s.shared.dev.msgsProduced = 2 ∧ s.shared.dev.bytesProduced = 0 := by
  refine ⟨starting_of_all rfl, ?_⟩
  obtain ⟨begun, hbegun, hcount⟩ := Option.map_eq_some_iff.mp
    (show (run driver (boot (emptyDev .SPSC 2 1)) (oneAndAHalf ++ [⟨2, .start .reset⟩])).map
      (fun begun => (returnsIn Local.produced begun resetThenStore,
        (run driver begun resetThenStore).map fun s =>
          ((List.range 3).all fun p => (s.locals p).outside, s.shared.dev.msgsProduced,
            s.shared.dev.bytesProduced))) = some (1, some (true, 2, 0)) from rfl)
  obtain ⟨hreturns, hrest⟩ := Prod.mk.inj hcount
  obtain ⟨s, hrun, hend⟩ := Option.map_eq_some_iff.mp hrest
  obtain ⟨hout, hcounters⟩ := Prod.mk.inj hend
  obtain ⟨hmsgs, hbytes⟩ := Prod.mk.inj hcounters
  have hall : AllReturned s :=
    allReturned_of_upTo 3 (run_append_of_some hbegun hrun) (by decide) fun p hp =>
      List.all_eq_true.mp hout p (List.mem_range.mpr hp)
  exact ⟨begun, s, hbegun, hrun, hall, hreturns, hmsgs, hbytes⟩

-- A stricter condition that can be tested: no transfer has published and not
-- returned when a RESET stores, and no RESET is storing when a transfer goes on.
def resetsAloneUpTo (bound : Nat) (s : System) (act : Act Choice) : Bool :=
  match s.locals act.pid with
  | .reset (.store _) => (List.range bound).all fun q =>
      (s.locals q).producePhase = .rest && (s.locals q).consumePhase = .rest
  | .readSpsc .. | .writeSpsc .. => (List.range bound).all fun q => !(s.locals q).clearing 0 3
  | _ => true

theorem transferring_of_producePhase {here : Local} (h : here.producePhase ≠ .rest) :
    here.transferring = true := by
  cases here with
  | writeSpsc => rfl
  | _ => exact absurd rfl h

theorem transferring_of_consumePhase {here : Local} (h : here.consumePhase ≠ .rest) :
    here.transferring = true := by
  cases here with
  | readSpsc => rfl
  | _ => exact absurd rfl h

theorem not_clearing_of_wider {here : Local} {first last : Nat} (hlast : last ≤ 3)
    (h : here.clearing 0 3 = false) : here.clearing first last = false := by
  unfold Local.clearing at h ⊢
  split
  · simp only [Bool.and_eq_false_iff, decide_eq_false_iff_not] at h ⊢
    omega
  · rfl

theorem resetsApart_of_upTo {bound : Nat} {s : System} {act : Act Choice}
    (hidle : ∀ q, bound ≤ q → s.locals q = .idle) (h : resetsAloneUpTo bound s act = true) :
    ResetsApart s act := by
  have hreset (field : Nat) (hhere : s.locals act.pid = .reset (.store field)) (q : Nat) :
      (s.locals q).producePhase = .rest ∧ (s.locals q).consumePhase = .rest := by
    simp only [resetsAloneUpTo, hhere, List.all_eq_true, List.mem_range, Bool.and_eq_true,
      decide_eq_true_eq] at h
    by_cases hq : q < bound
    · exact h q hq
    · rw [hidle q (Nat.le_of_not_lt hq)]
      exact ⟨rfl, rfl⟩
  have htransfer (hhere : (s.locals act.pid).transferring = true) (q : Nat) :
      (s.locals q).clearing 0 3 = false := by
    by_cases hq : q < bound
    · unfold Local.transferring at hhere
      split at hhere
      · simp_all [resetsAloneUpTo]
      · simp_all [resetsAloneUpTo]
      · cases hhere
    · rw [hidle q (Nat.le_of_not_lt hq)]
      rfl
  constructor
  · refine ⟨fun hhere q => ?_, fun hhere q seen => ?_, fun seen hphase q => ?_⟩
    · exact congrArg Phase.settled (hreset 0 hhere q).1
    · exact fun hphase => nomatch (hreset 2 hhere q).1.symm.trans hphase
    · refine not_clearing_of_wider (by decide) (htransfer ?_ q)
      exact transferring_of_producePhase (hphase.trans_ne nofun)
  · refine ⟨fun hhere q => ?_, fun hhere q seen => ?_, fun seen hphase q => ?_⟩
    · exact congrArg Phase.settled (hreset 1 hhere q).2
    · exact fun hphase => nomatch (hreset 3 hhere q).2.symm.trans hphase
    · refine not_clearing_of_wider (by decide) (htransfer ?_ q)
      exact transferring_of_consumePhase (hphase.trans_ne nofun)

-- A RESET while a write is copying its message, which is counted afterwards.
def copyingWrite : List (Act Choice) :=
  ⟨0, .start (.write true ⟨[7], 1⟩)⟩ :: proceed 0 17 ++
    ⟨0, .start (.write true ⟨[8], 1⟩)⟩ :: proceed 0 6

def resetThenWrite : List (Act Choice) := proceed 2 9 ++ proceed 0 11

theorem reset_effective_copyingWrite :
    ∃ begun s,
      run driver (boot (emptyDev .SPSC 2 1)) (copyingWrite ++ [⟨2, .start .reset⟩]) = some begun ∧
      run driver begun resetThenWrite = some s ∧ s.shared.dev.msgsProduced = 1 ∧
      ∃ k, k ≤ 1 ∧ s.shared.dev.msgsProduced = BitVec.ofNat 64 k ∧
        s.shared.dev.bytesProduced = BitVec.ofNat 64
          ((s.shared.sent.drop (s.shared.sent.length - k)).map List.length).sum := by
  have hdev : Wellformed (emptyDev .SPSC 2 1) :=
    emptyDev_wellformed _ _ _ (by decide) (by decide) (by decide) (by decide) fun _ => ⟨1, rfl⟩
  have hcheck : checkAlong driver (resetsAloneUpTo 3) (boot (emptyDev .SPSC 2 1))
      ((copyingWrite ++ [⟨2, .start .reset⟩]) ++ resetThenWrite) = true := rfl
  have hapart : Along driver ResetsApart (boot (emptyDev .SPSC 2 1))
      ((copyingWrite ++ [⟨2, .start .reset⟩]) ++ resetThenWrite) :=
    along_of_checkAlong (fun _ _ => resetsApart_of_upTo) (fun _ _ => rfl) (by decide) hcheck
  obtain ⟨begun, hbegun, hcount⟩ := Option.map_eq_some_iff.mp
    (show (run driver (boot (emptyDev .SPSC 2 1)) (copyingWrite ++ [⟨2, .start .reset⟩])).map
      (fun begun => (returnsIn Local.produced begun resetThenWrite,
        (run driver begun resetThenWrite).map fun s =>
          ((List.range 3).all fun p => (s.locals p).outside, s.shared.dev.msgsProduced))) =
        some (1, some (true, 1)) from rfl)
  obtain ⟨hreturns, hrest⟩ := Prod.mk.inj hcount
  obtain ⟨s, hrun, hend⟩ := Option.map_eq_some_iff.mp hrest
  obtain ⟨hout, hmsgs⟩ := Prod.mk.inj hend
  have hall : AllReturned s :=
    allReturned_of_upTo 3 (run_append_of_some hbegun hrun) (by decide) fun p hp =>
      List.all_eq_true.mp hout p (List.mem_range.mpr hp)
  have hreq : Along driver (Starting (Roles.pair 0 1).allows) (boot (emptyDev .SPSC 2 1))
      ((copyingWrite ++ [⟨2, .start .reset⟩]) ++ resetThenWrite) := starting_of_all rfl
  obtain ⟨⟨k, hk, hcounters⟩, -⟩ := reset_effective hdev rfl rfl hreq hapart hbegun hrun hall
  exact ⟨begun, s, hbegun, hrun, hmsgs, k, hk.trans_eq hreturns, hcounters⟩

end Races

end Kbuf
