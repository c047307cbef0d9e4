import Kbuf.Handles.Ownership

namespace Kbuf

open Custody Interleaving

section Theorem

-- The object owns an open descriptor or mapping.
def Process.Owns (s : Process) (o : Nat) (i : Instance Key) : Prop :=
  s.held o = some i.key ∧ s.table.entries i.key = some i.serial

-- At every point of every program each object has something open or nothing, nothing has
-- two owners, and nothing is closed twice or while it is owned. In the end all descriptors
-- but those that release() has given up have been closed, and all mappings unmapped.
theorem handles_release_once {pg : Nat} {acts : List (Act Operation)} {s : State Process Unit}
    (hadmissible : Along (program pg) (fun s act => Admissible pg s.shared act.choice)
      Process.start acts)
    (hrun : run (program pg) Process.start acts = some s) :
    (∀ o k, s.shared.held o = some k → ∃ n, s.shared.Owns o ⟨k, n⟩) ∧
    (∀ o p i, s.shared.Owns o i → s.shared.Owns p i → o = p) ∧
    (∀ i, s.shared.table.ops.count (.release i) ≤ 1) ∧
    (∀ o i, s.shared.Owns o i → s.shared.table.ops.count (.release i) = 0) ∧
    s.shared.table.stray = 0 ∧
    ((∀ o, s.shared.objects o = none) → ∀ i ∈ s.shared.obtained,
      (i ∉ s.shared.givenUp ∨ ∃ base len, i.key = .map base len) →
      s.shared.table.ops.count (.release i) = 1) := by
  have hstep : ∀ s act t, HandlesInv s.shared → Admissible pg s.shared act.choice →
      step (program pg) s act = some t → HandlesInv t.shared := by
    intro s act t h hok hstep
    obtain ⟨next, hp, rfl⟩ := step_eq_some hstep
    obtain ⟨t, hexec, rfl⟩ := Option.map_eq_some_iff.mp hp
    exact h.step hok (exec_executes hexec)
  have hstart : HandlesInv Process.start.shared :=
    ⟨⟨Table.sound_empty, nofun, nofun, nofun, nofun⟩, nofun⟩
  have hinv : HandlesInv s.shared := run_invariant hstep hstart hadmissible hrun
  have htable : s.shared.table.Sound := hinv.sound.table
  refine ⟨fun o k ho => ?_, fun o p i ho hp => ?_, htable.released_le,
    fun o i ho => htable.released_of_open ho.2, htable.stray, fun hdead i hi hkept => ?_⟩
  · obtain ⟨n, hn⟩ := hinv.sound.opened o k ho
    exact ⟨n, ho, hn⟩
  · exact hinv.sound.alone o p i.key ho.1 hp.1
  · refine hinv.sound.settled (fun o => held_of_dead (hdead o)) hi fun hgiven => ?_
    rcases hkept with hkept | ⟨base, len, hmap⟩
    · exact hkept hgiven
    · obtain ⟨n, hn⟩ := hinv.descriptors i hgiven
      cases hn.symm.trans hmap

section Example

-- The objects that an operation may write to.
def Operation.targets : Operation → List Nat
  | .rawOpen _ | .rawClose _ => []
  | .uniqueFd o _ | .device o _ | .exportDmabuf o _ _ | .mappedRing o _ => [o]
  | .moveConstruct o src => [o, src]
  | .moveAssign dst src => [dst, src]
  | .release o | .reset o _ | .destroy o => [o]

theorem put_objects_of_ne {s : Process} {o p : Nat} {value : Option RaiiObject} (h : p ≠ o) :
    (s.put o value).objects p = s.objects p :=
  Function.update_of_ne h ..

theorem recordFd_objects (s : Process) (fd : Int) : (s.recordFd fd).objects = s.objects := by
  unfold Process.recordFd
  split <;> rfl

theorem Executes.objects_of_ne {pg p : Nat} {s t : Process} {operation : Operation}
    (h : Executes pg s operation t) (hp : p ∉ operation.targets) :
    t.objects p = s.objects p := by
  cases h with
  | rawOpen | rawClose | deviceThrows | exportThrows | ringThrows => rfl
  | uniqueFd =>
      rw [put_objects_of_ne (List.ne_of_not_mem_cons hp), recordFd_objects]
  | device | exportDmabuf =>
      rw [put_objects_of_ne (List.ne_of_not_mem_cons hp), Process.opened, recordFd_objects]
  | mappedRing => rw [put_objects_of_ne (List.ne_of_not_mem_cons hp)]; rfl
  | moveConstruct =>
      obtain ⟨ho, hsrc⟩ := List.ne_and_not_mem_of_not_mem_cons hp
      rw [Process.moveConstruct, put_objects_of_ne (List.ne_of_not_mem_cons hsrc),
        put_objects_of_ne ho]
  | moveAssign =>
      obtain ⟨hdst, hsrc⟩ := List.ne_and_not_mem_of_not_mem_cons hp
      unfold Process.moveAssign
      split
      · rfl
      · dsimp only [Process.moveConstruct]
        rw [put_objects_of_ne (List.ne_of_not_mem_cons hsrc), put_objects_of_ne hdst,
          put_objects_of_ne hdst, close_objects]
  | release => rw [Process.release, put_objects_of_ne (List.ne_of_not_mem_cons hp)]
  | @reset _ old =>
      rw [put_objects_of_ne (List.ne_of_not_mem_cons hp), recordFd_objects]
      exact congrFun (close_objects s (.uniqueFd old)) p
  | destroy => rw [put_objects_of_ne (List.ne_of_not_mem_cons hp), close_objects]

-- The same as `Admissible` when only the objects below `bound` exist.
def admissibleBelow (bound pg : Nat) (s : Process) (operation : Operation) : Bool :=
  let free (k : Key) : Bool := (List.range bound).all fun o => s.held o ≠ some k
  let isOpen (k : Key) : Bool := (s.table.entries k).isSome
  match operation with
  | .rawOpen n => !isOpen (.fd n)
  | .rawClose n => isOpen (.fd n) && free (.fd n)
  | .uniqueFd _ fd => isOpen (.fd fd.toNat) && free (.fd fd.toNat)
  | .reset _ fd => isOpen (.fd fd.toNat) && free (.fd fd.toNat)
  | .device _ (some n) => !isOpen (.fd n)
  | .exportDmabuf _ _ (some n) => !isOpen (.fd n)
  | .mappedRing _ (some base) => base != 0 && !isOpen (.map base (pg + 2 * KBUF_MMAP_CAPACITY))
  | _ => true

theorem admissible_of_below {bound pg : Nat} {s : Process} {operation : Operation}
    (hdead : ∀ o, bound ≤ o → s.objects o = none)
    (h : admissibleBelow bound pg s operation = true) : Admissible pg s operation := by
  have hfree {k : Key} (hbelow : ∀ o < bound, s.held o ≠ some k) (o : Nat) :
      s.held o ≠ some k := by
    rcases Nat.lt_or_ge o bound with ho | ho
    · exact hbelow o ho
    · rw [held_of_dead (hdead o ho)]
      exact nofun
  unfold admissibleBelow at h
  unfold Admissible
  split at h <;> simp_all [Option.isSome_iff_exists, Process.Adoptable]

-- A Device is moved, a MappedRing is assigned to itself, two constructors throw, and a
-- unique_fd takes over a descriptor of other code, gives it up, takes over a dma-buf in a
-- move, and the descriptor again in its place.
def handlesProgram : List (Act Operation) :=
  [.rawOpen 5, .uniqueFd 0 5, .device 1 (some 3), .device 4 none, .mappedRing 2 (some 8192),
    .mappedRing 4 none, .moveConstruct 3 1, .moveAssign 2 2, .release 0, .exportDmabuf 4 3 (some 6),
    .moveAssign 0 4, .reset 0 5, .release 0, .destroy 0, .destroy 1, .destroy 2, .destroy 3,
    .destroy 4].map fun operation => ⟨0, operation⟩

theorem handles_release_once_handlesProgram :
    ∃ s, run (program 4096) Process.start handlesProgram = some s ∧
      s.shared.table.ops.count (.release ⟨.fd 3, 1⟩) = 1 ∧
      s.shared.table.ops.count (.release ⟨.map 8192 135168, 2⟩) = 1 ∧
      s.shared.table.ops.count (.release ⟨.fd 6, 3⟩) = 1 ∧
      s.shared.table.entries (.fd 5) = some 0 := by
  have hbelow : ∀ s act t, (∀ o, 5 ≤ o → s.shared.objects o = none) →
      (∀ o ∈ act.choice.targets, o < 5) → step (program 4096) s act = some t →
      ∀ o, 5 ≤ o → t.shared.objects o = none := by
    intro s act t hdead htargets hstep o ho
    obtain ⟨next, hp, rfl⟩ := step_eq_some hstep
    obtain ⟨t, hexec, rfl⟩ := Option.map_eq_some_iff.mp hp
    refine ((exec_executes hexec).objects_of_ne fun hmem => ?_).trans (hdead o ho)
    exact Nat.not_lt.mpr ho (htargets o hmem)
  have hadmissible : Along (program 4096) (fun s act => Admissible 4096 s.shared act.choice)
      Process.start handlesProgram :=
    along_of_check hbelow (fun s act hdead h => admissible_of_below hdead h) (fun _ _ => rfl)
      (by decide) (show checkAlong (program 4096) (fun s act =>
        admissibleBelow 5 4096 s.shared act.choice) Process.start handlesProgram = true from rfl)
  obtain ⟨s, hrun, hend⟩ := Option.map_eq_some_iff.mp
    (show (run (program 4096) Process.start handlesProgram).map (fun s =>
        (s.shared.objects 0, s.shared.objects 1, s.shared.objects 2, s.shared.objects 3,
          s.shared.objects 4, s.shared.obtained, s.shared.givenUp,
          s.shared.table.entries (.fd 5))) =
      some (none, none, none, none, none, [⟨.fd 5, 0⟩, ⟨.fd 6, 3⟩, ⟨.map 8192 135168, 2⟩,
        ⟨.fd 3, 1⟩, ⟨.fd 5, 0⟩], [⟨.fd 5, 0⟩], some 0) from rfl)
  obtain ⟨h0, h1, h2, h3, h4, hobtained, hgiven, hopen⟩ := by
    simpa only [Prod.mk.injEq] using hend
  have htargets : Along (program 4096) (fun _ act => ∀ o ∈ act.choice.targets, o < 5)
      Process.start handlesProgram := along_of_mem fun _ => by decide
  have hdead (o : Nat) : s.shared.objects o = none := by
    match o with
    | 0 => exact h0
    | 1 => exact h1
    | 2 => exact h2
    | 3 => exact h3
    | 4 => exact h4
    | o + 5 => exact run_invariant hbelow (fun _ _ => rfl) htargets hrun (o + 5) (by omega)
  obtain ⟨-, -, -, -, -, hall⟩ := handles_release_once hadmissible hrun
  have hone := hall hdead
  rw [hobtained, hgiven] at hone
  exact ⟨s, hrun, hone _ (by decide) (Or.inl (by decide)),
    hone _ (by decide) (Or.inr ⟨_, _, rfl⟩), hone _ (by decide) (Or.inl (by decide)), hopen⟩

end Example

end Theorem

end Kbuf
