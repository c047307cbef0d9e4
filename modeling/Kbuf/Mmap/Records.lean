import Kbuf.Lib.Delivery
import Kbuf.Mmap.Stream

namespace Kbuf

open Interleaving FreeRunning

section Definitions

-- One process writes and one reads, always whole records of `d` bytes.
def RecordStarting (d producer consumer : Nat) (_ : MapSystem) (act : Act MapChoice) : Prop :=
  match act.choice with
  | .start (.write buf) => act.pid = producer ∧ buf.length = d
  | .start (.read n) => act.pid = consumer ∧ n = d
  | .start .reset => False
  | .go => True

-- The record of a write that has just returned something other than 0.
def sentRecord : MapLocal → MapLocal → Option (List UInt8)
  | .write buf _, .written n => if n = 0 then none else some buf
  | _, _ => none

-- The bytes of a read that has just returned something other than 0.
def gotRecord : MapLocal → MapLocal → Option (List UInt8)
  | .read _ _, .got out => if out.length = 0 then none else some out
  | _, _ => none

structure Aligned (d : Nat) (ring : MapRing) : Prop where
  cap : d ∣ ring.cap
  head : d ∣ ring.head.toNat
  tail : d ∣ ring.tail.toNat

-- Every transfer under way or just finished is of one record or of nothing.
def MapLocal.OneRecord (d : Nat) : MapLocal → Prop
  | .write buf (.copy _ n _) => buf.length = d ∧ n = d
  | .write buf _ => buf.length = d
  | .read n (.copy _ len _) => n = d ∧ len = d
  | .read n _ => n = d
  | .written n => n = 0 ∨ n = d
  | .got out => out.length = 0 ∨ out.length = d
  | .idle | .reset _ | .resetDone => True

structure RecordInv (d producer consumer : Nat) (s : MapSystem) : Prop where
  stream : StreamInv producer consumer s
  aligned : Aligned d s.shared
  record : ∀ p, (s.locals p).OneRecord d

end Definitions

section Steps

variable {d : Nat} {ring ring' : MapRing} {next : MapLocal}

theorem StreamOk.record_dvd (h : StreamOk ring) (ha : Aligned d ring) : d ∣ 2 ^ 64 :=
  ha.cap.trans h.dvd

-- Room or data that is a multiple of the record size is none or enough.
theorem min_eq_of_dvd {space n : Nat} (h : d ∣ space) (hn : n = min d space) (hpos : 0 < n) :
    n = d := by
  have hle : d ≤ space := Nat.le_of_dvd (by omega) h
  omega

theorem MapWriteMove.record_step {buf : List UInt8} {pc : MapWritePc} (hok : StreamOk ring)
    (ha : Aligned d ring) (hpc : MapWriterOk ring buf pc)
    (hhere : (MapLocal.write buf pc).OneRecord d) (h : MapWriteMove buf ring pc ring' next) :
    Aligned d ring' ∧ next.OneRecord d := by
  cases h with
  | loadHead => exact ⟨ha, hhere⟩
  | full => exact ⟨ha, Or.inl rfl⟩
  | begin hn hpos =>
      obtain rfl := hpc
      obtain rfl : buf.length = d := hhere
      have hspace : buf.length ∣ ring.cap - depth ring.head ring.tail :=
        Nat.dvd_sub ha.cap (dvd_depth (hok.record_dvd ha) ha.head ha.tail)
      rw [hok.space_eq] at hn
      exact ⟨ha, rfl, min_eq_of_dvd hspace hn hpos⟩
  | byte => exact ⟨⟨ha.cap, ha.head, ha.tail⟩, hhere⟩
  | publish =>
      obtain ⟨rfl, -⟩ := hpc
      obtain ⟨-, rfl⟩ := hhere
      exact ⟨⟨ha.cap, dvd_advance (hok.record_dvd ha) ha.head (Nat.dvd_refl _), ha.tail⟩,
        Or.inr rfl⟩

theorem MapReadMove.record_step {n : Nat} {pc : MapReadPc} (hok : StreamOk ring)
    (ha : Aligned d ring) (hpc : MapReaderOk ring pc)
    (hhere : (MapLocal.read n pc).OneRecord d) (h : MapReadMove n ring pc ring' next) :
    Aligned d ring' ∧ next.OneRecord d := by
  cases h with
  | loadTail => exact ⟨ha, hhere⟩
  | empty => exact ⟨ha, Or.inl rfl⟩
  | begin hlen hpos =>
      obtain rfl := hpc
      obtain rfl : n = d := hhere
      have hdata := dvd_depth (hok.record_dvd ha) ha.head ha.tail
      exact ⟨ha, rfl, min_eq_of_dvd hdata hlen hpos⟩
  | byte => exact ⟨ha, hhere⟩
  | publish hout =>
      obtain ⟨rfl, -, hle, -⟩ := hpc
      obtain ⟨-, rfl⟩ := hhere
      exact ⟨⟨ha.cap, ha.head, dvd_advance (hok.record_dvd ha) ha.tail (Nat.dvd_refl _)⟩,
        Or.inr (Nat.le_antisymm hle hout)⟩

theorem sentRecord_enter (here : MapLocal) (request : MapRequest) :
    sentRecord here request.enter = none := by
  cases here <;> cases request <;> rfl

theorem gotRecord_enter (here : MapLocal) (request : MapRequest) :
    gotRecord here request.enter = none := by
  cases here <;> cases request <;> rfl

-- Only a write that publishes adds to the accepted bytes, and it adds its record.
theorem MapWriteMove.sent {buf : List UInt8} {pc : MapWritePc} (hd : 0 < d)
    (hhere : (MapLocal.write buf pc).OneRecord d) (h : MapWriteMove buf ring pc ring' next) :
    ring'.accepted = ring.accepted ++ (sentRecord (.write buf pc) next).toList.flatten ∧
      ring'.returned = ring.returned ∧
      (∀ record ∈ sentRecord (.write buf pc) next, record.length = d) := by
  cases h with
  | loadHead | full | begin | byte =>
      refine ⟨(List.append_nil _).symm, rfl, ?_⟩
      rintro record ⟨⟩
  | @publish head n i =>
      obtain ⟨hlen, rfl⟩ := hhere
      have hrecord : sentRecord (.write buf (.copy head n i)) (.written n) = some buf :=
        if_neg (by omega)
      rw [hrecord]
      refine ⟨?_, rfl, ?_⟩
      · simp [List.take_of_length_le (Nat.le_of_eq hlen)]
      · rintro record ⟨⟩
        exact hlen

theorem MapReadMove.got {n : Nat} {pc : MapReadPc} (hd : 0 < d) (hpc : MapReaderOk ring pc)
    (hhere : (MapLocal.read n pc).OneRecord d) (h : MapReadMove n ring pc ring' next) :
    ring'.returned = ring.returned ++ (gotRecord (.read n pc) next).toList.flatten ∧
      ring'.accepted = ring.accepted ∧
      (∀ record ∈ gotRecord (.read n pc) next, record.length = d) := by
  cases h with
  | loadTail | empty | begin | byte =>
      refine ⟨(List.append_nil _).symm, rfl, ?_⟩
      rintro record ⟨⟩
  | @publish tail len out hout =>
      obtain ⟨-, rfl⟩ := hhere
      obtain ⟨-, -, hle, -⟩ := hpc
      have hlen : out.length = len := Nat.le_antisymm hle hout
      have hrecord : gotRecord (.read n (.copy tail len out)) (.got out) = some out :=
        if_neg (by omega)
      rw [hrecord]
      refine ⟨by simp, rfl, ?_⟩
      rintro record ⟨⟩
      exact hlen

end Steps

section Runs

variable {d producer consumer : Nat} {s t : MapSystem} {act : Act MapChoice}

theorem RecordStarting.mapStarting (h : RecordStarting d producer consumer s act) :
    MapStarting producer consumer s act := by
  unfold RecordStarting at h
  unfold MapStarting
  generalize act.choice = choice at h
  cases choice with
  | start request =>
      cases request with
      | write | read => exact h.1
      | reset => exact h
  | go => trivial

theorem recordInv_step (hinv : RecordInv d producer consumer s)
    (hstart : RecordStarting d producer consumer s act) (h : step libkbuf s act = some t) :
    RecordInv d producer consumer t := by
  have hstream := streamInv_step hinv.stream hstart.mapStarting h
  have hlocal := hinv.stream.local_ok act.pid
  have hrecord := hinv.record act.pid
  obtain ⟨ring, next, hmove, rfl⟩ := map_step_move h
  have hstep : Aligned d ring ∧ next.OneRecord d := by
    unfold RecordStarting at hstart
    generalize s.locals act.pid = here at hmove hlocal hrecord
    generalize act.choice = choice at hmove hstart
    cases hmove with
    | enter request =>
        refine ⟨hinv.aligned, ?_⟩
        cases request with
        | write | read => exact hstart.2
        | reset => trivial
    | write hw => exact hw.record_step hinv.stream.ring hinv.aligned hlocal.2 hrecord
    | read hr => exact hr.record_step hinv.stream.ring hinv.aligned hlocal.2 hrecord
    | reset => exact hlocal.elim
  exact ⟨hstream, hstep.1, State.forall_put (P := fun _ (here : MapLocal) => here.OneRecord d)
    hstep.2 fun p _ => hinv.record p⟩

-- The two histories grow by what the step that was just taken hands over.
theorem RecordInv.histories (hd : 0 < d) (hinv : RecordInv d producer consumer s)
    (h : step libkbuf s act = some t) :
    (t.shared.accepted = s.shared.accepted ++
        (sentRecord (s.locals act.pid) (t.locals act.pid)).toList.flatten ∧
      ∀ record ∈ sentRecord (s.locals act.pid) (t.locals act.pid), record.length = d) ∧
    (t.shared.returned = s.shared.returned ++
        (gotRecord (s.locals act.pid) (t.locals act.pid)).toList.flatten ∧
      ∀ record ∈ gotRecord (s.locals act.pid) (t.locals act.pid), record.length = d) := by
  have hlocal := hinv.stream.local_ok act.pid
  have hrecord := hinv.record act.pid
  obtain ⟨ring, next, hmove, rfl⟩ := map_step_move h
  rw [State.put_shared, State.put_locals_self]
  generalize s.locals act.pid = here at hmove hlocal hrecord
  generalize act.choice = choice at hmove
  cases hmove with
  | enter request =>
      rw [sentRecord_enter, gotRecord_enter]
      simp
  | write hw =>
      obtain ⟨haccepted, hreturned, hlen⟩ := hw.sent hd hrecord
      refine ⟨⟨haccepted, hlen⟩, ?_, ?_⟩
      · simp [hreturned, gotRecord]
      · simp [gotRecord]
  | read hr =>
      obtain ⟨hreturned, haccepted, hlen⟩ := hr.got hd hlocal.2 hrecord
      refine ⟨⟨?_, ?_⟩, hreturned, hlen⟩
      · simp [haccepted, sentRecord]
      · simp [sentRecord]
  | reset => exact hlocal.elim

end Runs

section Theorem

variable {cap d producer consumer : Nat} {index : BitVec 64} {data : List UInt8}
  {acts : List (Act MapChoice)} {s : MapSystem}

-- The records so far make up a history of bytes.
def MadeOf (d : Nat) (records : List (List UInt8)) (bytes : List UInt8) : Prop :=
  bytes = records.flatten ∧ ∀ record ∈ records, record.length = d

theorem MadeOf.append {records : List (List UInt8)} {bytes bytes' : List UInt8}
    {record : Option (List UInt8)} (h : MadeOf d records bytes)
    (hbytes : bytes' = bytes ++ record.toList.flatten) (hlen : ∀ r ∈ record, r.length = d) :
    MadeOf d (records ++ record.toList) bytes' := by
  refine ⟨?_, fun r hr => ?_⟩
  · rw [hbytes, h.1, List.flatten_append]
  · rcases List.mem_append.mp hr with hold | hnew
    · exact h.2 r hold
    · exact hlen r (Option.mem_toList.mp hnew)

theorem recordInv_boot (hcap : cap.isPowerOfTwo) (hlt : cap < 2 ^ 64) (hdata : data.length = cap)
    (hdvd : d ∣ cap) (hindex : d ∣ index.toNat) :
    RecordInv d producer consumer (mapBoot cap index data) where
  stream := streamInv_boot hcap hlt hdata index
  aligned := ⟨hdvd, hindex, hindex⟩
  record _ := trivial

-- A history that grows by whole records is made of those that were noted.
theorem madeOf_observed (note : MapLocal → MapLocal → Option (List UInt8))
    (bytes : MapRing → List UInt8) {start : MapSystem}
    (hstart : RecordInv d producer consumer start) (hempty : bytes start.shared = [])
    (hgrow : ∀ s act t, RecordInv d producer consumer s → step libkbuf s act = some t →
      bytes t.shared =
          bytes s.shared ++ (note (s.locals act.pid) (t.locals act.pid)).toList.flatten ∧
        ∀ record ∈ note (s.locals act.pid) (t.locals act.pid), record.length = d)
    (hreq : Along libkbuf (RecordStarting d producer consumer) start acts)
    (hrun : run libkbuf start acts = some s) :
    RecordInv d producer consumer s ∧
      MadeOf d (observed libkbuf note start acts) (bytes s.shared) := by
  have hstep : ∀ (seen : List (List UInt8)) (s : MapSystem) (act : Act MapChoice) (t : MapSystem),
      RecordInv d producer consumer s ∧ MadeOf d seen (bytes s.shared) →
      RecordStarting d producer consumer s act → step libkbuf s act = some t →
      RecordInv d producer consumer t ∧
        MadeOf d (seen ++ (note (s.locals act.pid) (t.locals act.pid)).toList)
          (bytes t.shared) := by
    rintro seen s act t ⟨hinv, hmade⟩ hact h
    obtain ⟨hbytes, hlen⟩ := hgrow s act t hinv h
    exact ⟨recordInv_step hinv hact h, hmade.append hbytes hlen⟩
  exact run_observed hstep ⟨hstart, hempty, nofun⟩ hreq hrun

-- Whole records in, whole records out: the ring neither splits nor joins them.
theorem records_never_torn (hcap : cap.isPowerOfTwo) (hlt : cap < 2 ^ 64)
    (hdata : data.length = cap) (hd : 0 < d) (hdvd : d ∣ cap) (hindex : d ∣ index.toNat)
    (hreq : Along libkbuf (RecordStarting d producer consumer) (mapBoot cap index data) acts)
    (hrun : run libkbuf (mapBoot cap index data) acts = some s) :
    (∀ p n, s.locals p = .written n → n = 0 ∨ n = d) ∧
    (∀ p out, s.locals p = .got out → out.length = 0 ∨ out.length = d) ∧
    ∀ (i : Nat) record,
      (observed libkbuf gotRecord (mapBoot cap index data) acts)[i]? = some record →
      (observed libkbuf sentRecord (mapBoot cap index data) acts)[i]? = some record := by
  have hboot : RecordInv d producer consumer (mapBoot cap index data) :=
    recordInv_boot hcap hlt hdata hdvd hindex
  obtain ⟨hinv, hsent⟩ := madeOf_observed sentRecord MapRing.accepted hboot rfl
    (fun _ _ _ hinv h => (hinv.histories hd h).1) hreq hrun
  obtain ⟨-, hgot⟩ := madeOf_observed gotRecord MapRing.returned hboot rfl
    (fun _ _ _ hinv h => (hinv.histories hd h).2) hreq hrun
  refine ⟨fun p n hp => ?_, fun p out hp => ?_, fun i record hi => ?_⟩
  · have hone := hinv.record p
    rw [hp] at hone
    exact hone
  · have hone := hinv.record p
    rw [hp] at hone
    exact hone
  · have hstream := hinv.stream.ring.stream
    rw [hsent.1, hgot.1] at hstream
    obtain ⟨rest, hrest⟩ := Delivery.append_of_flatten hd hgot.2 hsent.2 hstream
    rw [hrest, List.getElem?_append_left]
    · exact hi
    · exact (List.getElem?_eq_some_iff.mp hi).1

end Theorem

-- Records of two bytes go through a ring of two while the indices wrap: the second write
-- finds the ring full, and the one after the read goes through.
def wrapRecords : List (Act MapChoice) :=
  ⟨0, .start (.write [7, 8])⟩ :: List.replicate 5 ⟨0, .go⟩ ++
    ⟨0, .start (.write [9, 10])⟩ :: List.replicate 2 ⟨0, .go⟩ ++
    ⟨1, .start (.read 2)⟩ :: List.replicate 5 ⟨1, .go⟩ ++
    ⟨0, .start (.write [9, 10])⟩ :: List.replicate 5 ⟨0, .go⟩ ++
    ⟨1, .start (.read 2)⟩ :: List.replicate 5 ⟨1, .go⟩

theorem wrapRecords_allowed (s : MapSystem) :
    Along libkbuf (RecordStarting 2 0 1) s wrapRecords := by
  refine along_of_mem fun _ act hact => ?_
  simp only [wrapRecords, List.cons_append, List.mem_cons, List.mem_append,
    List.mem_replicate] at hact
  rcases hact with rfl | ((((⟨-, rfl⟩ | rfl | ⟨-, rfl⟩) | rfl | ⟨-, rfl⟩) | rfl | ⟨-, rfl⟩) |
    rfl | ⟨-, rfl⟩)
  all_goals first | exact ⟨rfl, rfl⟩ | trivial

theorem records_never_torn_wrapRecords :
    ∃ s, run libkbuf (mapBoot 2 0xFFFFFFFFFFFFFFFE [0, 0]) wrapRecords = some s ∧
      s.shared.head = 2 ∧
      (observed libkbuf gotRecord (mapBoot 2 0xFFFFFFFFFFFFFFFE [0, 0]) wrapRecords)[1]? =
        some [9, 10] ∧
      (observed libkbuf sentRecord (mapBoot 2 0xFFFFFFFFFFFFFFFE [0, 0]) wrapRecords)[1]? =
        some [9, 10] := by
  obtain ⟨s, hrun, hhead⟩ := Option.map_eq_some_iff.mp
    (show (run libkbuf (mapBoot 2 0xFFFFFFFFFFFFFFFE [0, 0]) wrapRecords).map
      (fun s => s.shared.head) = some 2 from rfl)
  obtain ⟨-, -, hsame⟩ := records_never_torn ⟨1, rfl⟩ (by decide) rfl (by decide)
    (Nat.dvd_refl 2) (by decide) (wrapRecords_allowed _) hrun
  exact ⟨s, hrun, hhead, rfl, hsame 1 [9, 10] rfl⟩

end Kbuf
