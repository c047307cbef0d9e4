import Kbuf.Handles.Model

namespace Kbuf

open Custody

section Ownership

-- What the destructor of an object would close.
def fdKey (fd : Int) : Option Key := if 0 ≤ fd then some (.fd fd.toNat) else none

def RaiiObject.key : RaiiObject → Option Key
  | .uniqueFd fd => fdKey fd
  | .device fd => fdKey fd
  | .mappedRing m => if m.base ≠ 0 then some (.map m.base m.maplen) else none

def Process.held (s : Process) (o : Nat) : Option Key := (s.objects o).bind RaiiObject.key

def Process.keepers (s : Process) : Keepers Nat Key := ⟨s.table, s.held, s.obtained, s.givenUp⟩

variable {s : Process} {o src : Nat} {value : RaiiObject}

theorem movedFrom_key (value : RaiiObject) : value.movedFrom.key = none := by
  cases value <;> rfl

theorem close_key (s : Process) (value : RaiiObject) : (value.close s).2.key = none := by
  cases value <;> rfl

theorem close_eq (s : Process) (value : RaiiObject) :
    (value.close s).1 = match value.key with
      | none => s
      | some k => { s with table := s.table.close k } := by
  cases value with
  | uniqueFd fd | device fd =>
      simp only [RaiiObject.close, uniqueFdReset, RaiiObject.key, fdKey, Prod.map]
      split <;> rfl
  | mappedRing m =>
      simp only [RaiiObject.close, kbufMapClose, RaiiObject.key, Prod.map]
      split <;> rfl

theorem held_put (s : Process) (o : Nat) (value : Option RaiiObject) :
    (s.put o value).held = Function.update s.held o (value.bind RaiiObject.key) := by
  funext p
  by_cases hp : p = o
  · subst hp
    simp [Process.held, Process.put]
  · simp [Process.held, Process.put, hp]

-- An object that owns nothing before and after.
theorem keepers_put_none (hbefore : s.held o = none) {after : Option RaiiObject}
    (hafter : after.bind RaiiObject.key = none) : (s.put o after).keepers = s.keepers := by
  have hheld : (s.put o after).held = s.held := by
    rw [held_put, hafter, ← hbefore, Function.update_eq_self]
  simp only [Process.keepers, hheld]
  rfl

theorem keepers_drop (hobject : s.objects o = some value) {after : Option RaiiObject}
    (hafter : after.bind RaiiObject.key = none) :
    ((value.close s).1.put o after).keepers = s.keepers.drop o := by
  have hbefore : s.held o = value.key := by simp [Process.held, hobject]
  rw [close_eq]
  cases hkey : value.key with
  | none =>
      rw [hkey] at hbefore
      simp only [Keepers.drop, show s.keepers.held o = none from hbefore]
      exact keepers_put_none hbefore hafter
  | some k =>
      rw [hkey] at hbefore
      simp only [Keepers.drop, show s.keepers.held o = some k from hbefore]
      simp only [Process.keepers, held_put, hafter]
      rfl

theorem keepers_take {k : Key} (hkey : value.key = some k) :
    ((s.record k).put o (some value)).keepers = s.keepers.take o k := by
  simp only [Process.keepers, held_put, Option.bind_some, hkey]
  rfl

theorem keepers_pass (hsrc : s.objects src = some value) :
    (s.moveConstruct o src value).keepers = s.keepers.pass src o := by
  have hheld : s.held src = value.key := by simp [Process.held, hsrc]
  simp only [Process.keepers, Process.moveConstruct, held_put, Option.bind_some, movedFrom_key,
    Keepers.pass, hheld]
  rfl

theorem keepers_giveUp {fd : Int} (hobject : s.objects o = some (.uniqueFd fd)) :
    (s.release o fd).keepers = s.keepers.giveUp o := by
  have hbefore : s.keepers.held o = fdKey fd := by
    simp [Process.keepers, Process.held, hobject, RaiiObject.key]
  by_cases hfd : 0 ≤ fd
  · rw [fdKey, if_pos hfd] at hbefore
    simp only [Keepers.giveUp, hbefore]
    simp only [Process.keepers, Process.release, held_put, if_pos hfd]
    rfl
  · rw [fdKey, if_neg hfd] at hbefore
    simp only [Keepers.giveUp, hbefore, Process.release, if_neg hfd, List.nil_append]
    exact keepers_put_none hbefore rfl

end Ownership

section Steps

variable {pg : Nat} {s t : Process} {o : Nat} {value : RaiiObject} {fd : Int} {n : Nat}

-- A descriptor of the process that no object owns. A negative number is no descriptor.
def Process.Adoptable (s : Process) (fd : Int) : Prop :=
  0 ≤ fd → (∃ n, s.table.entries (.fd fd.toNat) = some n) ∧ ∀ o, s.held o ≠ some (.fd fd.toNat)

-- The kernel hands out numbers and addresses that are not in use, nobody gives an object
-- what another one owns, and nobody else closes what an object owns.
def Admissible (pg : Nat) (s : Process) : Operation → Prop
  | .rawOpen n => s.table.entries (.fd n) = none
  | .rawClose n => (∃ m, s.table.entries (.fd n) = some m) ∧ ∀ o, s.held o ≠ some (.fd n)
  | .uniqueFd _ fd => s.Adoptable fd
  | .reset _ fd => s.Adoptable fd
  | .device _ (some n) => s.table.entries (.fd n) = none
  | .exportDmabuf _ _ (some n) => s.table.entries (.fd n) = none
  | .mappedRing _ (some base) =>
      base ≠ 0 ∧ s.table.entries (.map base (pg + 2 * KBUF_MMAP_CAPACITY)) = none
  | _ => True

structure HandlesInv (s : Process) : Prop where
  sound : s.keepers.Sound
  descriptors : ∀ i ∈ s.givenUp, ∃ n, i.key = .fd n

theorem held_of_dead (h : s.objects o = none) : s.held o = none := by
  simp [Process.held, h]

theorem recordFd_put (s : Process) (o : Nat) (fd : Int) (before after : Option RaiiObject) :
    ((s.put o before).recordFd fd).put o after = (s.recordFd fd).put o after := by
  unfold Process.recordFd
  split
  · simp only [Process.put, Process.record, Function.update_idem]
    rfl
  · simp only [Process.put, Function.update_idem]

theorem HandlesInv.adopt (h : HandlesInv s) (hheld : s.held o = none) (hfd : s.Adoptable fd) :
    HandlesInv ((s.recordFd fd).put o (some (.uniqueFd fd))) := by
  unfold Process.recordFd
  split
  · rename_i hle
    obtain ⟨⟨n, hopen⟩, hfree⟩ := hfd hle
    have hkey : RaiiObject.key (.uniqueFd fd) = some (.fd fd.toNat) := if_pos hle
    refine ⟨by rw [keepers_take hkey]; exact h.sound.take hheld hopen hfree, fun i hi => ?_⟩
    exact h.descriptors i (List.mem_filter.mp hi).1
  · rename_i hneg
    have hkey : (some (RaiiObject.uniqueFd fd)).bind RaiiObject.key = none := if_neg hneg
    exact ⟨by rw [keepers_put_none hheld hkey]; exact h.sound, h.descriptors⟩

-- Something new, and the object that gets it.
theorem HandlesInv.obtain (h : HandlesInv s) (hheld : s.held o = none) {k : Key}
    (hfree : s.table.entries k = none) (hkey : value.key = some k) :
    HandlesInv ((({ s with table := s.table.insert k }).record k).put o (some value)) := by
  have hinsert : ({ s with table := s.table.insert k } : Process).keepers.Sound :=
    h.sound.insert hfree
  refine ⟨?_, fun i hi => h.descriptors i (List.mem_filter.mp hi).1⟩
  rw [keepers_take hkey]
  refine hinsert.take hheld (Function.update_self ..) fun p hp => ?_
  obtain ⟨n, hn⟩ := h.sound.opened p k hp
  cases hfree.symm.trans hn

theorem HandlesInv.opened (h : HandlesInv s) (hheld : s.held o = none)
    (hfree : s.table.entries (.fd n) = none) (hkey : value.key = fdKey n) :
    HandlesInv ((s.opened n).put o (some value)) := by
  have hle : (0 : Int) ≤ n := Int.natCast_nonneg n
  unfold Process.opened Process.recordFd
  rw [if_pos hle]
  exact h.obtain hheld hfree (hkey.trans (if_pos hle))

theorem HandlesInv.drop (h : HandlesInv s) (hobject : s.objects o = some value)
    {after : Option RaiiObject} (hafter : after.bind RaiiObject.key = none) :
    HandlesInv ((value.close s).1.put o after) := by
  refine ⟨by rw [keepers_drop hobject hafter]; exact h.sound.drop o, fun i hi => ?_⟩
  rw [close_eq] at hi
  split at hi <;> exact h.descriptors i hi

theorem HandlesInv.pass {src : Nat} (h : HandlesInv s) (hheld : s.held o = none)
    (hsrc : s.objects src = some value) (hne : src ≠ o) :
    HandlesInv (s.moveConstruct o src value) :=
  ⟨by rw [keepers_pass hsrc]; exact h.sound.pass hheld hne, h.descriptors⟩

theorem close_objects (s : Process) (value : RaiiObject) :
    (value.close s).1.objects = s.objects := by
  rw [close_eq]
  split <;> rfl

theorem HandlesInv.moveAssign {dst src : Nat} {old : RaiiObject} (h : HandlesInv s)
    (hdst : s.objects dst = some old) (hsrc : s.objects src = some value) :
    HandlesInv (s.moveAssign dst src old value) := by
  unfold Process.moveAssign
  split
  · exact h
  · rename_i hne
    have hkey : (some (old.close s).2).bind RaiiObject.key = none := close_key s old
    refine (h.drop hdst hkey).pass ?_ ?_ (Ne.symm hne)
    · rw [held_put, Function.update_self, hkey]
    · simp [Process.put, close_objects, Ne.symm hne, hsrc]

theorem HandlesInv.release (h : HandlesInv s) (hobject : s.objects o = some (.uniqueFd fd)) :
    HandlesInv (s.release o fd) := by
  refine ⟨by rw [keepers_giveUp hobject]; exact h.sound.giveUp o, fun i hi => ?_⟩
  rcases List.mem_append.mp hi with hi | hi
  · split at hi
    · exact ⟨fd.toNat, (Table.mem_instances.mp hi).1⟩
    · cases hi
  · exact h.descriptors i hi

-- Closing what one object owns leaves what nobody owns as it is.
theorem Process.Adoptable.close (hfd : s.Adoptable fd) (hobject : s.objects o = some value)
    {after : Option RaiiObject} (hafter : after.bind RaiiObject.key = none) :
    ((value.close s).1.put o after).Adoptable fd := by
  intro hle
  obtain ⟨⟨n, hopen⟩, hfree⟩ := hfd hle
  have hne : value.key ≠ some (.fd fd.toNat) := by
    have := hfree o
    simpa [Process.held, hobject] using this
  constructor
  · refine ⟨n, ?_⟩
    rw [close_eq]
    split
    · exact hopen
    · rename_i k hk
      refine (s.table.close_entries_of_ne ?_).trans hopen
      rintro rfl
      exact hne hk
  · intro p
    rw [held_put, hafter]
    by_cases hp : p = o
    · simp [hp]
    · rw [Function.update_of_ne hp]
      have := hfree p
      simpa [Process.held, close_objects] using this

theorem HandlesInv.reset {old : Int} (h : HandlesInv s)
    (hobject : s.objects o = some (.uniqueFd old)) (hfd : s.Adoptable fd) :
    HandlesInv (((uniqueFdReset s old fd).1.recordFd fd).put o (some (.uniqueFd fd))) := by
  have hempty : (some (RaiiObject.uniqueFd (-1))).bind RaiiObject.key = none := rfl
  rw [← recordFd_put _ _ _ (some (.uniqueFd (-1)))]
  refine (h.drop hobject hempty).adopt ?_ (hfd.close hobject hempty)
  rw [held_put, Function.update_self, hempty]

theorem HandlesInv.step (h : HandlesInv s) {operation : Operation}
    (hadmissible : Admissible pg s operation) (hstep : Executes pg s operation t) :
    HandlesInv t := by
  cases hstep with
  | rawOpen => exact ⟨h.sound.insert hadmissible, h.descriptors⟩
  | rawClose =>
      obtain ⟨⟨m, hm⟩, hfree⟩ := hadmissible
      exact ⟨h.sound.close hm hfree, h.descriptors⟩
  | uniqueFd hdead => exact h.adopt (held_of_dead hdead) hadmissible
  | deviceThrows | exportThrows | ringThrows => exact h
  | device hdead => exact h.opened (held_of_dead hdead) hadmissible rfl
  | exportDmabuf hdead => exact h.opened (held_of_dead hdead) hadmissible rfl
  | mappedRing hdead =>
      exact h.obtain (held_of_dead hdead) hadmissible.2 (if_pos hadmissible.1)
  | moveConstruct hdead hsrc =>
      refine h.pass (held_of_dead hdead) hsrc ?_
      rintro rfl
      cases hdead.symm.trans hsrc
  | moveAssign hdst hsrc => exact h.moveAssign hdst hsrc
  | release hobject => exact h.release hobject
  | reset hobject => exact h.reset hobject hadmissible
  | destroy hobject => exact h.drop hobject rfl

end Steps

end Kbuf
