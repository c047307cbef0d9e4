import Kbuf.Device.Lemmas
import Kbuf.Lib.Ledger

namespace Kbuf

open Ledger

-- The slot memory of one device or of one resize: `array` is what kcalloc returns for
-- the slots, `data i` the buffer of slot i.
variable {ρ : Type*} (array : ρ) (data : Nat → ρ) (kmalloc : Nat → Bool)

def slotBlocks (n : Nat) : List ρ := [array] ++ (List.range n).map data

def allocate (ok : Bool) (r : ρ) : Routine ρ Errno :=
  .acquire (if ok then none else some .ENOMEM) r

-- After a failure at slot i: `while (i--) kfree(slots[i].data)`, then the array
def undoSlots (i : Nat) : List ρ := (List.range i).reverse.map data ++ [array]

def kbufAllocSlots (n : Nat) : Routine ρ Errno :=
  (allocate (kmalloc 0) array).orGoto [] <|
  .each (fun i => allocate (kmalloc (i + 1)) (data i)) (undoSlots array data) 0 n .done

def kbufFreeSlots (n : Nat) : List ρ := (List.range n).map data ++ [array]

theorem undoSlots_perm (i : Nat) : (undoSlots array data i).Perm (slotBlocks array data i) := by
  rw [undoSlots, slotBlocks, List.map_reverse]
  exact List.perm_append_comm.trans ((List.reverse_perm _).append_left _)

theorem kbufFreeSlots_perm (n : Nat) :
    (kbufFreeSlots array data n).Perm (slotBlocks array data n) :=
  List.perm_append_comm

theorem slotBlocks_nodup (n : Nat) (hdata : Function.Injective data)
    (harray : ∀ i, data i ≠ array) : (slotBlocks array data n).Nodup :=
  List.nodup_cons.mpr ⟨by simpa using fun i _ => harray i, List.nodup_range.map hdata⟩

theorem kbufAllocSlots_builds [DecidableEq ρ] (n : Nat) :
    (kbufAllocSlots array data kmalloc n).Builds [] (slotBlocks array data n) := by
  refine (builds_acquire ..).orGoto (fun _ _ => .refl _) ?_
  rw [List.map_eq_flatMap, ← List.append_nil (List.flatMap ..)]
  refine builds_each n (fun i => builds_acquire ..) (fun i _ _ => ?_) (builds_done _)
  rw [← List.map_eq_flatMap]
  exact undoSlots_perm array data i

section Outcome

variable {array data kmalloc}

theorem allocate_orGoto_ok {ok : Bool} {r : ρ} {undo : List ρ} {rest : Routine ρ Errno} :
    ((allocate ok r).orGoto undo rest).result = .ok () ↔ ok = true ∧ rest.result = .ok () := by
  cases ok with
  | false => exact ⟨nofun, nofun⟩
  | true => exact ⟨fun h => ⟨rfl, h⟩, fun h => h.2⟩

-- It fails when the model of its result has no slots to return.
theorem kbufAllocSlots_ok {n : Nat} (bufferSize : Nat) :
    (kbufAllocSlots array data kmalloc n).result = .ok () ↔
      (allocSlots kmalloc n bufferSize).isSome := by
  have hloop (i : Nat) : (Routine.each (fun i => allocate (kmalloc (i + 1)) (data i))
      (undoSlots array data) i n .done).result = .ok () ↔
      (allocBuffers kmalloc bufferSize i n).isSome := by
    induction n generalizing i with
    | zero => exact ⟨fun _ => rfl, fun _ => rfl⟩
    | succ n ih =>
        rw [Routine.each, allocate_orGoto_ok, ih, allocBuffers]
        split <;> simp_all
  rw [kbufAllocSlots, allocate_orGoto_ok, hloop, allocSlots]
  split <;> simp_all

end Outcome

end Kbuf
