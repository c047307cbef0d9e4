import Kbuf.Machine.History
import Kbuf.Resize.Sizes

namespace Kbuf

open Interleaving

-- A resize that goes through leaves room for every count clamped before it.
def ClampedFit (s : System) (act : Act Choice) : Prop :=
  ∀ rq ptr, s.locals act.pid = .resize rq (.swap ptr) → occupancy s.shared.dev = 0 →
    ∀ q count, (s.locals q).clamped = some count → count ≤ rq.bufferSize

-- The slot that a process is copying into, and the length of the copy.
def Local.copiesInto (w : World) : Local → Option (SlotPtr × Nat)
  | .writeBlocking _ u .produce => some (⟨w.slotsPtr, w.dev.writePos⟩, u.count)
  | .writeSpsc _ u (.copy f _) => some (f.slot, u.count)
  | _ => none

structure SizeInv (s : System) : Prop where
  sizes : Sizes s.shared
  sized : ∀ p, (s.locals p).Sized s.shared
  clamped : ∀ p count, (s.locals p).clamped = some count → count ≤ s.shared.dev.bufferSize

section Runs

variable {dev : Dev} {acts : List (Act Choice)} {s t : System}

theorem sizeInv_step {act : Act Choice} (hinv : SizeInv s) (hok : ClampedFit s act)
    (h : step driver s act = some t) : SizeInv t := by
  obtain ⟨w, next, hmove, rfl⟩ := step_move h
  have hstep := hmove.size_step hinv.sizes (hinv.sized act.pid) (hinv.clamped act.pid)
  refine ⟨hstep.sizes, ?_, fun p count hcount => ?_⟩
  · exact State.forall_put (P := fun _ (here : Local) => here.Sized w) hstep.sized
      fun p _ => (hinv.sized p).transport hstep.frame hstep.nextPtr_le
  · -- Only a resize changes the size, and then the clamped counts fit by assumption.
    have hbefore : (s.locals p).clamped = some count ∨
        p = act.pid ∧ next.clamped = some count ∧ count ≤ s.shared.dev.bufferSize := by
      by_cases hp : p = act.pid
      · subst hp
        rw [State.put_locals_self] at hcount
        rcases hstep.clamped count hcount with hc | hc
        · exact Or.inl hc
        · exact Or.inr ⟨rfl, hcount, hc⟩
      · rw [State.put_locals_of_ne _ _ hp] at hcount
        exact Or.inl hcount
    rw [State.put_shared]
    rcases hstep.bufferSize with hsize | ⟨rq, ptr, hhere, ho, hsize, hnone⟩
    · rw [hsize]
      rcases hbefore with hc | ⟨-, -, hle⟩
      · exact hinv.clamped p count hc
      · exact hle
    · rw [hsize]
      rcases hbefore with hc | ⟨-, hc, -⟩
      · exact hok rq ptr hhere ho p count hc
      · rw [hnone] at hc
        cases hc

theorem sizeInv_boot (hg : Geometry dev) (hpos : dev.writePos < dev.numBuffers) :
    SizeInv (boot dev) where
  sizes :=
    { ptr_lt := Nat.zero_lt_one
      num_pos := hg.num_pos
      num_le := hg.num_le
      writePos_lt := hpos
      sizes_eq := by
        refine List.eq_replicate_iff.mpr ⟨?_, fun size hm => ?_⟩
        · simpa [World.sizes, World.array, boot] using hg.slots_length
        · obtain ⟨slot, hslot, rfl⟩ := List.mem_map.mp hm
          exact hg.data_length slot (by simpa [World.array, boot] using hslot)
      len_le := by
        intro ptr slot hm
        by_cases hp : ptr = 0
        · have hm' : slot ∈ dev.slots := by simpa [World.array, boot, hp] using hm
          rw [hg.data_length slot hm']
          exact hg.len_le slot hm'
        · simp [World.array, boot, hp] at hm }
  sized _ := trivial
  clamped _ := nofun

theorem SizeInv.copies_fit (h : SizeInv s) {p count : Nat} {slot : SlotPtr}
    (hc : (s.locals p).copiesInto s.shared = some (slot, count)) :
    count ≤ (s.shared.load slot).data.length := by
  have hclamped := h.clamped p
  have hsized := h.sized p
  generalize s.locals p = here at hc hclamped hsized
  unfold Local.copiesInto at hc
  split at hc
  · obtain ⟨rfl, rfl⟩ := Prod.mk.inj (Option.some.inj hc)
    have hlen := h.sizes.slot_length h.sizes.writePos_lt
    rw [← hlen] at hclamped
    simpa [World.load, Dev.slot] using hclamped _ rfl
  · obtain ⟨rfl, rfl⟩ := Prod.mk.inj (Option.some.inj hc)
    exact World.HasRoom.le_length hsized
  · cases hc

-- Whatever the processes do, as long as no resize goes below a clamped count.
theorem write_fits_slot (hdev : Geometry dev) (hpos : dev.writePos < dev.numBuffers)
    (hok : Along driver ClampedFit (boot dev) acts) (hrun : run driver (boot dev) acts = some s) :
    (∀ p slot count, (s.locals p).copiesInto s.shared = some (slot, count) →
        count ≤ (s.shared.load slot).data.length) ∧
      ∀ slot ∈ s.shared.dev.slots, slot.len ≤ s.shared.dev.bufferSize := by
  have hinv : SizeInv s := run_invariant (fun _ _ _ hinv hok h => sizeInv_step hinv hok h)
    (sizeInv_boot hdev hpos) hok hrun
  refine ⟨fun p slot count hc => hinv.copies_fit hc, fun slot hm => ?_⟩
  rw [← hinv.sizes.data_length hm]
  exact hinv.sizes.len_le s.shared.slotsPtr slot (by rw [array_slotsPtr]; exact hm)

end Runs

-- A writer clamps its two bytes and sleeps on the full ring, a reader empties
-- the ring, a resize goes through, and the writer is about to copy.
def resizeUnderWriter (bufferSize : Nat) : List (Act Choice) :=
  ⟨0, .start (.write true ⟨[1, 2], 2⟩)⟩ :: proceed 0 7 ++
    ⟨1, .start (.write false ⟨[3, 4], 2⟩)⟩ :: proceed 1 8 ++
    ⟨2, .start (.read true ⟨2, 2⟩)⟩ :: proceed 2 6 ++
    ⟨3, .start (.resize ⟨false, 1, bufferSize, fun _ => true⟩)⟩ :: proceed 3 7 ++ proceed 1 5

-- With a smaller size the copy runs past the end of the slot, and the slot then
-- claims more bytes than it has.
theorem stale_clamp_overflows :
    ∃ s t slot, run driver (boot (emptyDev .BLOCKING 1 2)) (resizeUnderWriter 1) = some s ∧
      (s.locals 1).copiesInto s.shared = some (slot, 2) ∧ (s.shared.load slot).data.length = 1 ∧
      step driver s ⟨1, .go⟩ = some t ∧ t.shared.dev.bufferSize = 1 ∧
      t.shared.dev.slots.map (fun slot => slot.len) = [2] := by
  obtain ⟨s, hrun, hend⟩ := Option.map_eq_some_iff.mp
    (show (run driver (boot (emptyDev .BLOCKING 1 2)) (resizeUnderWriter 1)).map
      (fun s => ((s.locals 1).copiesInto s.shared, (s.shared.load ⟨1, 0⟩).data.length,
        (step driver s ⟨1, .go⟩).map fun t =>
          (t.shared.dev.bufferSize, t.shared.dev.slots.map fun slot => slot.len))) =
        some (some (⟨1, 0⟩, 2), 1, some (1, [2])) from rfl)
  obtain ⟨hcopies, hrest⟩ := Prod.mk.inj hend
  obtain ⟨hlength, hnext⟩ := Prod.mk.inj hrest
  obtain ⟨t, ht, hsizes⟩ := Option.map_eq_some_iff.mp hnext
  obtain ⟨hsize, hlens⟩ := Prod.mk.inj hsizes
  exact ⟨s, t, ⟨1, 0⟩, hrun, hcopies, hlength, ht, hsize, hlens⟩

def clampedFitUpTo (bound : Nat) (s : System) (act : Act Choice) : Bool :=
  match s.locals act.pid with
  | .resize rq (.swap _) =>
      (List.range bound).all fun q => (s.locals q).clamped.all fun count => count ≤ rq.bufferSize
  | _ => true

theorem clampedFit_of_upTo {bound : Nat} {s : System} {act : Act Choice}
    (hidle : ∀ q, bound ≤ q → s.locals q = .idle) (h : clampedFitUpTo bound s act = true) :
    ClampedFit s act := by
  intro rq ptr hswap _ q count hcount
  simp only [clampedFitUpTo, hswap, List.all_eq_true, List.mem_range] at h
  by_cases hq : q < bound
  · simpa [hcount] using h q hq
  · rw [hidle q (Nat.le_of_not_lt hq)] at hcount
    cases hcount

theorem write_fits_slot_larger :
    ∃ s, run driver (boot (emptyDev .BLOCKING 1 2)) (resizeUnderWriter 3) = some s ∧
      (s.locals 1).copiesInto s.shared = some (⟨1, 0⟩, 2) ∧
      2 ≤ (s.shared.load ⟨1, 0⟩).data.length := by
  obtain ⟨s, hrun, hcopies⟩ := Option.map_eq_some_iff.mp
    (show (run driver (boot (emptyDev .BLOCKING 1 2)) (resizeUnderWriter 3)).map
      (fun s => (s.locals 1).copiesInto s.shared) = some (some (⟨1, 0⟩, 2)) from rfl)
  have hok : Along driver ClampedFit (boot (emptyDev .BLOCKING 1 2)) (resizeUnderWriter 3) :=
    along_of_checkAlong (fun _ _ => clampedFit_of_upTo) (fun _ _ => rfl) (by decide)
      (show checkAlong driver (clampedFitUpTo 4) _ _ = true from rfl)
  have hg : Geometry (emptyDev .BLOCKING 1 2) :=
    emptyDev_geometry _ _ _ (by decide) (by decide) (by decide) (by decide)
  exact ⟨s, hrun, hcopies, (write_fits_slot hg (by decide) hok hrun).1 1 _ 2 hcopies⟩

end Kbuf
