import Kbuf.Mmap.Pages
import Kbuf.Mmap.Stream

namespace Kbuf

open Interleaving FreeRunning

section Program

inductive ProducerPc where
  | loop
  | write (pc : MapWritePc)
  | exited
  deriving DecidableEq

inductive ConsumerPc where
  | reset (pc : MapResetPc)
  | loop
  | read (pc : MapReadPc)
  | finished
  deriving DecidableEq

-- The two sides of run_once with T_MMAP, each with its own mapping and its own `done`.
inductive BenchLocal where
  | producer (done : Nat) (pc : ProducerPc)
  | consumer (done : Nat) (pc : ConsumerPc)
  | absent
  deriving DecidableEq

-- Where a step of libkbuf leaves the loop around it.
def producerAfter (done : Nat) : MapLocal → BenchLocal
  | .write _ pc => .producer done (.write pc)
  | .written n => .producer (done + n) .loop
  | _ => .producer done .loop

def consumerAfter (done : Nat) : MapLocal → BenchLocal
  | .reset pc => .consumer done (.reset pc)
  | .read _ pc => .consumer done (.read pc)
  | .got out => .consumer (done + out.length) .loop
  | _ => .consumer done .loop

-- The child writes `buf` again and again, the parent resets the ring and then reads, until
-- each has counted `total` bytes.
def runOnceMmap (buf : List UInt8) (total : Nat) : Program MapRing BenchLocal Unit :=
  fun _ _ here ring =>
    match here with
    | .producer done .loop =>
        some (ring, .producer done (if done < total then .write .loadHead else .exited))
    | .producer done (.write pc) =>
        some (Prod.map id (producerAfter done) (mapWriteStep buf ring pc))
    | .consumer done (.reset pc) =>
        some (Prod.map id (consumerAfter done) (mapResetStep ring pc))
    | .consumer done .loop =>
        some (ring, .consumer done (if done < total then .read .loadTail else .finished))
    | .consumer done (.read pc) =>
        some (Prod.map id (consumerAfter done) (mapReadStep buf.length ring pc))
    | .producer _ .exited | .consumer _ .finished | .absent => none

-- memset(buf, 0xa5, msgsize)
def benchBuf (msgsize : Nat) : List UInt8 := List.replicate msgsize 0xa5

abbrev BenchSystem := State MapRing BenchLocal

-- Right after the fork, on a ring that is empty at `index`.
def benchBoot (cap : Nat) (index : BitVec 64) (data : List UInt8) : BenchSystem where
  shared := (mapBoot cap index data).shared
  locals
    | 0 => .producer 0 .loop
    | 1 => .consumer 0 (.reset .storeHead)
    | _ => .absent

end Program

section Moves

variable {buf : List UInt8} {total : Nat}

inductive BenchMove (buf : List UInt8) (total : Nat) (ring : MapRing) :
    BenchLocal → MapRing → BenchLocal → Prop
  | produceLoop {done : Nat} :
      BenchMove buf total ring (.producer done .loop) ring
        (.producer done (if done < total then .write .loadHead else .exited))
  | write {done : Nat} {pc : MapWritePc} {ring' : MapRing} {next : MapLocal}
      (h : MapWriteMove buf ring pc ring' next) :
      BenchMove buf total ring (.producer done (.write pc)) ring' (producerAfter done next)
  | storeHead {done : Nat} :
      BenchMove buf total ring (.consumer done (.reset .storeHead)) { ring with head := 0 }
        (.consumer done (.reset .storeTail))
  | storeTail {done : Nat} :
      BenchMove buf total ring (.consumer done (.reset .storeTail)) { ring with tail := 0 }
        (.consumer done .loop)
  | consumeLoop {done : Nat} :
      BenchMove buf total ring (.consumer done .loop) ring
        (.consumer done (if done < total then .read .loadTail else .finished))
  | read {done : Nat} {pc : MapReadPc} {ring' : MapRing} {next : MapLocal}
      (h : MapReadMove buf.length ring pc ring' next) :
      BenchMove buf total ring (.consumer done (.read pc)) ring' (consumerAfter done next)

theorem runOnceMmap_move {me : Nat} {choice : Unit} {here next : BenchLocal}
    {ring ring' : MapRing} (h : runOnceMmap buf total me choice here ring = some (ring', next)) :
    BenchMove buf total ring here ring' next := by
  cases here with
  | producer done pc =>
      cases pc with
      | loop =>
          obtain ⟨rfl, rfl⟩ := Prod.mk.inj (Option.some.inj h)
          exact .produceLoop
      | write pc =>
          obtain ⟨rfl, rfl⟩ := Prod.mk.inj (Option.some.inj h)
          exact .write (mapWriteStep_move buf ring pc)
      | exited => cases h
  | consumer done pc =>
      cases pc with
      | reset pc =>
          cases pc <;> obtain ⟨rfl, rfl⟩ := Prod.mk.inj (Option.some.inj h)
          · exact .storeHead
          · exact .storeTail
      | loop =>
          obtain ⟨rfl, rfl⟩ := Prod.mk.inj (Option.some.inj h)
          exact .consumeLoop
      | read pc =>
          obtain ⟨rfl, rfl⟩ := Prod.mk.inj (Option.some.inj h)
          exact .read (mapReadStep_move buf.length ring pc)
      | finished => cases h
  | absent => cases h

theorem bench_step_move {s t : BenchSystem} {act : Act Unit}
    (h : step (runOnceMmap buf total) s act = some t) :
    ∃ ring here, BenchMove buf total s.shared (s.locals act.pid) ring here ∧
      t = s.put act.pid (ring, here) := by
  obtain ⟨⟨ring, here⟩, hp, rfl⟩ := step_eq_some h
  exact ⟨ring, here, runOnceMmap_move hp, rfl⟩

end Moves

section Definitions

-- The producer has put nothing into the ring and holds no index of it.
def BenchLocal.fresh : BenchLocal → Bool
  | .producer done .loop | .producer done (.write .loadHead) | .producer done .exited => done = 0
  | _ => false

-- The consumer has stored `head` in kbuf_map_reset and not yet `tail`.
def BenchLocal.betweenStores : BenchLocal → Bool
  | .consumer _ (.reset .storeTail) => true
  | _ => false

-- The reset contract: a store of kbuf_map_reset finds 0 in place or comes before the first
-- write, and the first write does not begin between the two stores, `tail` being something
-- else than 0.
def QuietReset (s : BenchSystem) (act : Act Unit) : Prop :=
  match s.locals act.pid with
  | .consumer _ (.reset .storeHead) => s.shared.head = 0 ∨ (s.locals 0).fresh = true
  | .consumer _ (.reset .storeTail) => s.shared.tail = 0 ∨ (s.locals 0).fresh = true
  | .producer 0 (.write .loadHead) =>
      s.shared.tail = 0 ∨ (s.locals 1).betweenStores = false
  | _ => True

def BenchLocal.Ok (buf : List UInt8) (ring : MapRing) (p : Nat) : BenchLocal → Prop
  | .producer done (.write pc) =>
      p = 0 ∧ done = ring.accepted.length ∧ MapWriterOk ring buf pc
  | .producer done _ => p = 0 ∧ done = ring.accepted.length
  | .consumer done (.read pc) => p = 1 ∧ done = ring.returned.length ∧ MapReaderOk ring pc
  | .consumer done _ => p = 1 ∧ done = ring.returned.length
  | .absent => True

-- Between the two stores of a reset that nobody else has noticed.
structure Resetting (s : BenchSystem) : Prop where
  power : s.shared.cap.isPowerOfTwo
  cap_lt : s.shared.cap < 2 ^ 64
  length : s.shared.data.length = s.shared.cap
  head : s.shared.head = 0
  accepted : s.shared.accepted = []
  returned : s.shared.returned = []
  fresh : (s.locals 0).fresh = true
  between : (s.locals 1).betweenStores = true

structure BenchInv (buf : List UInt8) (s : BenchSystem) : Prop where
  ring : StreamOk s.shared ∨ Resetting s
  head_zero : (s.locals 1).betweenStores = true → s.shared.accepted = [] → s.shared.head = 0
  local_ok : ∀ p, (s.locals p).Ok buf s.shared p

end Definitions

section Steps

variable {buf : List UInt8} {ring ring' : MapRing} {done : Nat} {next : MapLocal}

-- As long as nothing has been accepted, the ring is empty.
theorem StreamOk.head_eq_tail (h : StreamOk ring) (haccepted : ring.accepted = []) :
    ring.head = ring.tail ∧ ring.returned = [] := by
  have hstream := h.stream
  rw [haccepted] at hstream
  obtain ⟨hreturned, hunread⟩ := List.append_eq_nil_iff.mp hstream.symm
  have hdepth : depth ring.head ring.tail = 0 := by
    rw [← Circular.length_window ring.cell ring.cap ring.tail.toNat (depth ring.head ring.tail)]
    exact congrArg List.length hunread
  exact ⟨(depth_eq_zero_iff _ _).mp hdepth, hreturned⟩

theorem streamOk_of_empty (hpower : ring.cap.isPowerOfTwo) (hlt : ring.cap < 2 ^ 64)
    (hlength : ring.data.length = ring.cap) (hindex : ring.head = ring.tail)
    (haccepted : ring.accepted = []) (hreturned : ring.returned = []) : StreamOk ring := by
  have hdepth : depth ring.head ring.tail = 0 := (depth_eq_zero_iff _ _).mpr hindex
  refine ⟨hpower, hlt, hlength, by omega, ?_⟩
  rw [MapRing.unread, hdepth, haccepted, hreturned]
  rfl

-- Whoever is not the producer keeps what it knows when the consumer's view survives.
theorem BenchLocal.Ok.of_reader {p : Nat} {here : BenchLocal} (h : here.Ok buf ring p)
    (hp : p ≠ 0) (hreturned : ring'.returned = ring.returned)
    (hreader : ∀ pc, MapReaderOk ring pc → MapReaderOk ring' pc) : here.Ok buf ring' p := by
  cases here with
  | producer done pc => cases pc <;> exact absurd h.1 hp
  | consumer done pc =>
      cases pc with
      | read pc => exact ⟨h.1, by rw [hreturned]; exact h.2.1, hreader pc h.2.2⟩
      | reset | loop | finished => exact ⟨h.1, by rw [hreturned]; exact h.2⟩
  | absent => trivial

theorem BenchLocal.Ok.of_writer {p : Nat} {here : BenchLocal} (h : here.Ok buf ring p)
    (hp : p ≠ 1) (haccepted : ring'.accepted = ring.accepted)
    (hwriter : ∀ pc, MapWriterOk ring buf pc → MapWriterOk ring' buf pc) :
    here.Ok buf ring' p := by
  cases here with
  | producer done pc =>
      cases pc with
      | write pc => exact ⟨h.1, by rw [haccepted]; exact h.2.1, hwriter pc h.2.2⟩
      | loop | exited => exact ⟨h.1, by rw [haccepted]; exact h.2⟩
  | consumer done pc => cases pc <;> exact absurd h.1 hp
  | absent => trivial

-- A fresh producer knows nothing about the ring that a reset could spoil.
theorem BenchLocal.Ok.of_fresh {here : BenchLocal} (h : here.Ok buf ring 0)
    (hfresh : here.fresh = true) (haccepted : ring'.accepted = ring.accepted) :
    here.Ok buf ring' 0 ∧ ring.accepted = [] := by
  unfold BenchLocal.fresh at hfresh
  split at hfresh
  · obtain ⟨-, hdone⟩ := h
    have hzero := of_decide_eq_true hfresh
    exact ⟨⟨rfl, by rw [haccepted]; exact hdone⟩, List.length_eq_zero_iff.mp (by omega)⟩
  · obtain ⟨-, hdone, -⟩ := h
    have hzero := of_decide_eq_true hfresh
    exact ⟨⟨rfl, by rw [haccepted]; exact hdone, trivial⟩,
      List.length_eq_zero_iff.mp (by omega)⟩
  · obtain ⟨-, hdone⟩ := h
    have hzero := of_decide_eq_true hfresh
    exact ⟨⟨rfl, by rw [haccepted]; exact hdone⟩, List.length_eq_zero_iff.mp (by omega)⟩
  · cases hfresh

theorem MapWriteMove.bench_step {pc : MapWritePc} (hok : StreamOk ring)
    (hdone : done = ring.accepted.length) (hpc : MapWriterOk ring buf pc)
    (h : MapWriteMove buf ring pc ring' next) :
    StreamOk ring' ∧ (producerAfter done next).Ok buf ring' 0 ∧
      (∀ p here, p ≠ 0 → BenchLocal.Ok buf ring p here → BenchLocal.Ok buf ring' p here) ∧
      (ring'.accepted = [] → ring.accepted = [] ∧ ring'.head = ring.head) := by
  have hstream : StreamOk ring' ∧ next.Ok 0 1 ring' 0 ∧
      ∀ pc, MapReaderOk ring pc → MapReaderOk ring' pc := h.stream_step hok rfl hpc
  obtain ⟨hok', hnext, hreader⟩ := hstream
  refine ⟨hok', ?_⟩
  cases h with
  | loadHead | begin | byte =>
      exact ⟨⟨rfl, hdone, hnext.2⟩, fun p here hp hh => hh.of_reader hp rfl hreader,
        fun h => ⟨h, rfl⟩⟩
  | full =>
      exact ⟨⟨rfl, hdone⟩, fun p here hp hh => hh.of_reader hp rfl hreader, fun h => ⟨h, rfl⟩⟩
  | @publish head n i hi =>
      obtain ⟨rfl, hn, -⟩ := hpc
      refine ⟨⟨rfl, ?_⟩, fun p here hp hh => hh.of_reader hp rfl hreader, fun hempty => ?_⟩
      · rw [List.length_append, List.length_take, Nat.min_eq_left hn, hdone]
      · obtain ⟨hold, htake⟩ := List.append_eq_nil_iff.mp hempty
        have hzero : n = 0 := by
          have := congrArg List.length htake
          rw [List.length_take, Nat.min_eq_left hn] at this
          exact this
        refine ⟨hold, ?_⟩
        rw [hzero]
        simp

theorem MapReadMove.bench_step {pc : MapReadPc} (hok : StreamOk ring)
    (hdone : done = ring.returned.length) (hpc : MapReaderOk ring pc)
    (h : MapReadMove buf.length ring pc ring' next) :
    StreamOk ring' ∧ (consumerAfter done next).Ok buf ring' 1 ∧
      ∀ p here, p ≠ 1 → BenchLocal.Ok buf ring p here → BenchLocal.Ok buf ring' p here := by
  have hstream : StreamOk ring' ∧ next.Ok 0 1 ring' 1 ∧
      ∀ buf pc, MapWriterOk ring buf pc → MapWriterOk ring' buf pc := h.stream_step hok rfl hpc
  obtain ⟨hok', hnext, hwriter⟩ := hstream
  refine ⟨hok', ?_⟩
  cases h with
  | loadTail | begin | byte =>
      exact ⟨⟨rfl, hdone, hnext.2⟩, fun p here hp hh => hh.of_writer hp rfl (hwriter buf)⟩
  | empty => exact ⟨⟨rfl, hdone⟩, fun p here hp hh => hh.of_writer hp rfl (hwriter buf)⟩
  | publish =>
      refine ⟨⟨rfl, ?_⟩, fun p here hp hh => hh.of_writer hp rfl (hwriter buf)⟩
      rw [List.length_append, hdone]

theorem betweenStores_consumerAfter {n : Nat} {pc : MapReadPc}
    (h : MapReadMove n ring pc ring' next) : (consumerAfter done next).betweenStores = false := by
  cases h <;> rfl

end Steps

section Runs

variable {buf : List UInt8} {total : Nat} {s t : BenchSystem} {act : Act Unit}

theorem Resetting.streamOk (h : Resetting s) (htail : s.shared.tail = 0) : StreamOk s.shared :=
  streamOk_of_empty h.power h.cap_lt h.length (h.head.trans htail.symm) h.accepted h.returned

theorem BenchLocal.Ok.producer_pid {ring : MapRing} {p done : Nat} {pc : ProducerPc}
    (h : BenchLocal.Ok buf ring p (.producer done pc)) : p = 0 := by
  cases pc <;> exact h.1

theorem BenchLocal.Ok.consumer_pid {ring : MapRing} {p done : Nat} {pc : ConsumerPc}
    (h : BenchLocal.Ok buf ring p (.consumer done pc)) : p = 1 := by
  cases pc <;> exact h.1

-- A ring that is not being reset stays whole, whatever else the step changes.
theorem BenchInv.put_stream {ring : MapRing} {next : BenchLocal} {pid : Nat}
    (hring : StreamOk ring)
    (hzero : ((s.put pid (ring, next)).locals 1).betweenStores = true → ring.accepted = [] →
      ring.head = 0)
    (hnext : next.Ok buf ring pid)
    (hothers : ∀ p, p ≠ pid → (s.locals p).Ok buf ring p) :
    BenchInv buf (s.put pid (ring, next)) where
  ring := Or.inl hring
  head_zero := hzero
  local_ok := State.forall_put (P := fun p (here : BenchLocal) => here.Ok buf ring p) hnext hothers

theorem BenchLocal.Ok.eq_absent {ring : MapRing} {p : Nat} {here : BenchLocal}
    (h : here.Ok buf ring p) (hzero : p ≠ 0) (hone : p ≠ 1) : here = .absent := by
  cases here with
  | producer done pc => exact absurd h.producer_pid hzero
  | consumer done pc => exact absurd h.consumer_pid hone
  | absent => rfl

-- A store of the reset, made while the producer is fresh, leaves everybody else alone.
theorem BenchInv.others_of_fresh (hinv : BenchInv buf s) (hfresh : (s.locals 0).fresh = true)
    (ring : MapRing) (haccepted : ring.accepted = s.shared.accepted) {p : Nat} (hp : p ≠ 1) :
    (s.locals p).Ok buf ring p := by
  by_cases hzero : p = 0
  · subst hzero
    exact ((hinv.local_ok 0).of_fresh hfresh haccepted).1
  · rw [(hinv.local_ok p).eq_absent hzero hp]
    trivial

theorem BenchInv.accepted_nil (hinv : BenchInv buf s) (hfresh : (s.locals 0).fresh = true) :
    s.shared.accepted = [] := by
  have hsame : s.shared.accepted = s.shared.accepted := rfl
  exact ((hinv.local_ok 0).of_fresh hfresh hsame).2

-- Only between the two stores is the ring not whole.
theorem BenchInv.streamOk (hinv : BenchInv buf s)
    (h : (s.locals 1).betweenStores = false) : StreamOk s.shared := by
  rcases hinv.ring with hring | hreset
  · exact hring
  · rw [hreset.between] at h
    cases h

theorem benchInv_produceLoop {done : Nat} (hinv : BenchInv buf s)
    (hl : s.locals 0 = .producer done .loop) :
    BenchInv buf (s.put 0 (s.shared,
      .producer done (if done < total then .write .loadHead else .exited))) := by
  have hdone : done = s.shared.accepted.length := by
    have hhere := hinv.local_ok 0
    rw [hl] at hhere
    exact hhere.2
  have hnext : BenchLocal.Ok buf s.shared 0
      (.producer done (if done < total then .write .loadHead else .exited)) := by
    split
    · exact ⟨rfl, hdone, trivial⟩
    · exact ⟨rfl, hdone⟩
  refine ⟨?_, fun hb => ?_, ?_⟩
  · rcases hinv.ring with hring | hreset
    · exact Or.inl hring
    · have hfresh := hreset.fresh
      rw [hl] at hfresh
      refine Or.inr { hreset with fresh := ?_, between := ?_ }
      · rw [State.put_locals_self]
        split <;> exact hfresh
      · rw [State.put_locals_of_ne _ _ one_ne_zero]
        exact hreset.between
  · rw [State.put_locals_of_ne _ _ one_ne_zero] at hb
    exact hinv.head_zero hb
  · exact State.forall_put (P := fun p (here : BenchLocal) => here.Ok buf s.shared p) hnext
      fun p _ => hinv.local_ok p

theorem benchInv_write {done : Nat} {pc : MapWritePc} {ring : MapRing} {next : MapLocal}
    (hinv : BenchInv buf s) (hquiet : QuietReset s ⟨0, ()⟩)
    (hl : s.locals 0 = .producer done (.write pc)) (h : MapWriteMove buf s.shared pc ring next) :
    BenchInv buf (s.put 0 (ring, producerAfter done next)) := by
  have hhere := hinv.local_ok 0
  unfold QuietReset at hquiet
  rw [hl] at hhere hquiet
  obtain ⟨-, hdone, hpc⟩ := hhere
  have hring : StreamOk s.shared := by
    rcases hinv.ring with hring | hreset
    · exact hring
    · -- The first load of `head`, and it finds the reset as good as done.
      have hfresh := hreset.fresh
      rw [hl] at hfresh
      cases pc with
      | loadHead =>
          obtain rfl : done = 0 := of_decide_eq_true hfresh
          rcases hquiet with htail | hnot
          · exact hreset.streamOk htail
          · rw [hreset.between] at hnot
            cases hnot
      | loadTail | copy => cases hfresh
  obtain ⟨hok, hnext, hothers, hhead⟩ := h.bench_step hring hdone hpc
  refine .put_stream hok (fun hb haccepted => ?_) hnext
    fun p hp => hothers p _ hp (hinv.local_ok p)
  rw [State.put_locals_of_ne _ _ one_ne_zero] at hb
  obtain ⟨hold, hsame⟩ := hhead haccepted
  rw [hsame]
  exact hinv.head_zero hb hold

theorem benchInv_storeHead {done : Nat} (hinv : BenchInv buf s) (hquiet : QuietReset s ⟨1, ()⟩)
    (hl : s.locals 1 = .consumer done (.reset .storeHead)) :
    BenchInv buf (s.put 1 ({ s.shared with head := 0 }, .consumer done (.reset .storeTail))) := by
  have hhere := hinv.local_ok 1
  unfold QuietReset at hquiet
  rw [hl] at hhere hquiet
  have hring : StreamOk s.shared := hinv.streamOk (by rw [hl]; rfl)
  rcases hquiet with hzero | hfresh
  · have hsame : { s.shared with head := 0 } = s.shared := by rw [← hzero]
    rw [hsame]
    exact .put_stream hring (fun _ _ => hzero) ⟨rfl, hhere.2⟩ fun p _ => hinv.local_ok p
  · have haccepted := hinv.accepted_nil hfresh
    refine ⟨Or.inr ?_, fun _ _ => rfl, ?_⟩
    · refine ⟨hring.power, hring.cap_lt, hring.length, rfl, haccepted,
        (hring.head_eq_tail haccepted).2, ?_, ?_⟩
      · rw [State.put_locals_of_ne _ _ zero_ne_one]
        exact hfresh
      · rw [State.put_locals_self]
        rfl
    · exact State.forall_put
        (P := fun p (here : BenchLocal) => here.Ok buf { s.shared with head := 0 } p)
        ⟨rfl, hhere.2⟩ fun p hp => hinv.others_of_fresh hfresh { s.shared with head := 0 } rfl hp

theorem benchInv_storeTail {done : Nat} (hinv : BenchInv buf s) (hquiet : QuietReset s ⟨1, ()⟩)
    (hl : s.locals 1 = .consumer done (.reset .storeTail)) :
    BenchInv buf (s.put 1 ({ s.shared with tail := 0 }, .consumer done .loop)) := by
  have hhere := hinv.local_ok 1
  unfold QuietReset at hquiet
  rw [hl] at hhere hquiet
  have hgone (ring : MapRing) (hb : ((s.put 1 (ring, .consumer done .loop)).locals
      1).betweenStores = true) : ring.accepted = [] → ring.head = 0 := by
    rw [State.put_locals_self] at hb
    cases hb
  rcases hinv.ring with hring | hreset
  · -- If nothing has been written, the store of `head` has left both indices at 0.
    have htail : s.shared.tail = 0 := by
      rcases hquiet with htail | hfresh
      · exact htail
      · have haccepted := hinv.accepted_nil hfresh
        rw [← (hring.head_eq_tail haccepted).1]
        exact hinv.head_zero (by rw [hl]; rfl) haccepted
    have hsame : { s.shared with tail := 0 } = s.shared := by rw [← htail]
    rw [hsame]
    exact .put_stream hring (hgone _) ⟨rfl, hhere.2⟩ fun p _ => hinv.local_ok p
  · refine .put_stream ?_ (hgone _) ⟨rfl, hhere.2⟩
      fun p hp => hinv.others_of_fresh hreset.fresh { s.shared with tail := 0 } rfl hp
    exact streamOk_of_empty hreset.power hreset.cap_lt hreset.length hreset.head hreset.accepted
      hreset.returned

theorem benchInv_step (hinv : BenchInv buf s) (hquiet : QuietReset s act)
    (h : step (runOnceMmap buf total) s act = some t) : BenchInv buf t := by
  obtain ⟨pid, ⟨⟩⟩ := act
  have hhere := hinv.local_ok pid
  obtain ⟨ring, next, hmove, rfl⟩ := bench_step_move h
  generalize hl : s.locals pid = here at hmove hhere
  cases hmove with
  | produceLoop =>
      obtain rfl : pid = 0 := hhere.producer_pid
      exact benchInv_produceLoop hinv hl
  | write hw =>
      obtain rfl : pid = 0 := hhere.producer_pid
      exact benchInv_write hinv hquiet hl hw
  | storeHead =>
      obtain rfl : pid = 1 := hhere.consumer_pid
      exact benchInv_storeHead hinv hquiet hl
  | storeTail =>
      obtain rfl : pid = 1 := hhere.consumer_pid
      exact benchInv_storeTail hinv hquiet hl
  | @consumeLoop done =>
      obtain rfl : pid = 1 := hhere.consumer_pid
      have hring : StreamOk s.shared := hinv.streamOk (by rw [hl]; rfl)
      refine .put_stream hring (fun hb => ?_) ?_ fun p _ => hinv.local_ok p
      · rw [State.put_locals_self] at hb
        split at hb <;> cases hb
      · split
        · exact ⟨rfl, hhere.2, trivial⟩
        · exact ⟨rfl, hhere.2⟩
  | read hr =>
      obtain rfl : pid = 1 := hhere.consumer_pid
      have hring : StreamOk s.shared := hinv.streamOk (by rw [hl]; rfl)
      obtain ⟨hok, hnext, hothers⟩ := hr.bench_step hring hhere.2.1 hhere.2.2
      refine .put_stream hok (fun hb => ?_) hnext fun p hp => hothers p _ hp (hinv.local_ok p)
      rw [State.put_locals_self, betweenStores_consumerAfter hr] at hb
      cases hb

theorem benchInv_boot {cap : Nat} {data : List UInt8} (hcap : cap.isPowerOfTwo)
    (hlt : cap < 2 ^ 64) (hdata : data.length = cap) (index : BitVec 64) :
    BenchInv buf (benchBoot cap index data) where
  ring := Or.inl (streamOk_of_empty hcap hlt hdata rfl rfl rfl)
  head_zero hb _ := by cases hb
  local_ok p := by
    match p with
    | 0 => exact ⟨rfl, rfl⟩
    | 1 => exact ⟨rfl, rfl⟩
    | _ + 2 => trivial

end Runs

section Theorem

variable {cap total : Nat} {index : BitVec 64} {buf data : List UInt8} {acts : List (Act Unit)}
  {s : BenchSystem}

-- The child fills the ring and leaves, and only then does the parent reset it.
def lateReset : List (Act Unit) :=
  List.replicate 69 ⟨0, ()⟩ ++ List.replicate 5 ⟨1, ()⟩

-- The bytes are gone, the child has counted them as sent, and the parent goes on waiting.
theorem late_reset_drops_bytes :
    ∃ s, run (runOnceMmap (benchBuf 64) 64)
        (benchBoot KBUF_MMAP_CAPACITY 0 (List.replicate KBUF_MMAP_CAPACITY 0)) lateReset = some s ∧
      s.locals 0 = .producer 64 .exited ∧ s.locals 1 = .consumer 0 .loop ∧
      s.shared.accepted.length = 64 ∧
      s.shared.returned.length + (s.shared.head - s.shared.tail).toNat ≠ 64 := by
  obtain ⟨s, hrun, hend⟩ := Option.map_eq_some_iff.mp
    (show (run (runOnceMmap (benchBuf 64) 64)
        (benchBoot KBUF_MMAP_CAPACITY 0 (List.replicate KBUF_MMAP_CAPACITY 0)) lateReset).map
      (fun s => (s.locals 0, s.locals 1, s.shared.accepted.length, s.shared.returned.length,
        s.shared.head, s.shared.tail)) =
          some (.producer 64 .exited, .consumer 0 .loop, 64, 0, 0, 0) from rfl)
  simp only [Prod.mk.injEq] at hend
  obtain ⟨hproducer, hconsumer, haccepted, hreturned, hhead, htail⟩ := hend
  refine ⟨s, hrun, hproducer, hconsumer, haccepted, ?_⟩
  rw [hreturned, hhead, htail]
  decide

-- As long as the reset keeps to its contract, nothing that the producer has counted is lost.
theorem quiet_reset_loses_nothing (hcap : cap.isPowerOfTwo) (hlt : cap < 2 ^ 64)
    (hdata : data.length = cap)
    (hquiet : Along (runOnceMmap buf total) QuietReset (benchBoot cap index data) acts)
    (hrun : run (runOnceMmap buf total) (benchBoot cap index data) acts = some s) :
    (∃ rest, s.shared.accepted = s.shared.returned ++ rest) ∧
    (s.shared.accepted = s.shared.returned ++ s.shared.unread ∨
      s.shared.accepted = [] ∧ (s.locals 1).betweenStores = true) ∧
    (∀ done pc, s.locals 0 = .producer done pc → done = s.shared.accepted.length) ∧
    (∀ done pc, s.locals 1 = .consumer done pc → done = s.shared.returned.length) ∧
    (0 < total → s.shared.accepted.length = total →
      s.shared.returned.length + (s.shared.head - s.shared.tail).toNat = total) := by
  have hinv : BenchInv buf s :=
    run_invariant (fun _ _ _ hinv hok h => benchInv_step hinv hok h)
      (benchInv_boot hcap hlt hdata index) hquiet hrun
  refine ⟨?_, ?_, fun done pc hp => ?_, fun done pc hc => ?_, fun hpos hall => ?_⟩
  · rcases hinv.ring with hring | hreset
    · exact ⟨_, hring.stream⟩
    · exact ⟨[], by rw [hreset.accepted, hreset.returned]; rfl⟩
  · rcases hinv.ring with hring | hreset
    · exact Or.inl hring.stream
    · exact Or.inr ⟨hreset.accepted, hreset.between⟩
  · have hok := hinv.local_ok 0
    rw [hp] at hok
    cases pc with
    | write => exact hok.2.1
    | loop | exited => exact hok.2
  · have hok := hinv.local_ok 1
    rw [hc] at hok
    cases pc with
    | read => exact hok.2.1
    | reset | loop | finished => exact hok.2
  · rcases hinv.ring with hring | hreset
    · have hlength := congrArg List.length hring.stream
      rw [List.length_append, MapRing.unread, Circular.length_window] at hlength
      exact hlength.symm.trans hall
    · rw [hreset.accepted] at hall
      exact absurd hall (Nat.ne_of_lt hpos)

-- The reset comes first, from indices that are not 0, and the read has copied all three
-- bytes without having released them.
def earlyReset : List (Act Unit) :=
  List.replicate 2 ⟨1, ()⟩ ++ List.replicate 8 ⟨0, ()⟩ ++ List.replicate 6 ⟨1, ()⟩

def quietResetNow (s : BenchSystem) (act : Act Unit) : Bool :=
  match s.locals act.pid with
  | .consumer _ (.reset .storeHead) => s.shared.head = 0 || (s.locals 0).fresh
  | .consumer _ (.reset .storeTail) => s.shared.tail = 0 || (s.locals 0).fresh
  | .producer 0 (.write .loadHead) => s.shared.tail = 0 || !(s.locals 1).betweenStores
  | _ => true

theorem quietReset_of_now {s : BenchSystem} {act : Act Unit} (h : quietResetNow s act = true) :
    QuietReset s act := by
  unfold quietResetNow at h
  unfold QuietReset
  split at h <;> simp_all

theorem quiet_reset_loses_nothing_earlyReset :
    ∃ s, run (runOnceMmap [7, 8, 9] 3) (benchBoot 4 0xFFFFFFFFFFFFFFFE [0, 0, 0, 0]) earlyReset =
        some s ∧ s.locals 0 = .producer 3 .exited ∧
      s.shared.returned.length + (s.shared.head - s.shared.tail).toNat = 3 := by
  obtain ⟨s, hrun, hend⟩ := Option.map_eq_some_iff.mp
    (show (run (runOnceMmap [7, 8, 9] 3) (benchBoot 4 0xFFFFFFFFFFFFFFFE [0, 0, 0, 0])
        earlyReset).map (fun s => (s.locals 0, s.shared.accepted)) =
          some (.producer 3 .exited, [7, 8, 9]) from rfl)
  obtain ⟨hproducer, haccepted⟩ := Prod.mk.inj hend
  have hquiet : Along (runOnceMmap [7, 8, 9] 3) QuietReset
      (benchBoot 4 0xFFFFFFFFFFFFFFFE [0, 0, 0, 0]) earlyReset :=
    along_of_checkAlong (fun _ _ _ => quietReset_of_now)
      (fun q (hq : 2 ≤ q) => by obtain ⟨q, rfl⟩ := Nat.exists_eq_add_of_le' hq; rfl)
      (by decide) rfl
  obtain ⟨-, -, -, -, hall⟩ := quiet_reset_loses_nothing ⟨2, rfl⟩ (by decide) rfl hquiet hrun
  exact ⟨s, hrun, hproducer, hall (by decide) (by rw [haccepted]; rfl)⟩

end Theorem

end Kbuf
