import Kbuf.Dyn.Minors

namespace Kbuf

open Interleaving Tally

section Ids

variable {r r' : Registry} {here next : DynLocal} {ptr : Nat}

theorem keeping_setDev (r : Registry) (off : Nat) (hlt : ptr < r.nextDev) (dev : DynDev) :
    (r.setDev ptr dev).keeping off + (r.devs ptr).keeps off = r.keeping off + dev.keeps off :=
  tally_update (DynDev.keeps off) r.devs hlt dev

theorem keeps_kept {dev : DynDev} (h : dev.keepsMinor) (off : Nat) :
    dev.keeps off = if dev.minorOff = off then 1 else 0 := by
  simp [DynDev.keeps, h]

theorem keeps_gone {dev : DynDev} (h : ¬dev.keepsMinor) (off : Nat) : dev.keeps off = 0 := by
  simp [DynDev.keeps, h]

-- A step that changes no cdev, node or list entry.
theorem MinorStep.unlisted (hids : ∀ off, r'.keeping off + next.registered.keeps off +
      r.ida.count off = r.keeping off + here.registered.keeps off + r'.ida.count off)
    (hcdevs : ∀ ptr, here.registered.cdevs ptr = 0 ∧ next.registered.cdevs ptr = 0)
    (hflags : ∀ ptr, (r'.devs ptr).cdev = (r.devs ptr).cdev ∧
      (r'.devs ptr).node = (r.devs ptr).node)
    (hoff : ∀ ptr, ptr < r.nextDev → (r'.devs ptr).minorOff = (r.devs ptr).minorOff)
    (hlist : r'.list = r.list)
    (hfresh : ∀ off, r'.ida.count off ≤ r.ida.count off ∨
      (off < KBUF_DYN_MAX ∧ r.ida.count off = 0 ∧ r'.ida.count off = 1))
    (hnext : r.nextDev ≤ r'.nextDev) (hn : r'.ndevices = r.ndevices) :
    MinorStep r here r' next where
  ids := hids
  cdevs ptr := by rw [(hflags ptr).1, hlist, (hcdevs ptr).1, (hcdevs ptr).2]
  nodes ptr := by
    have hhere := nodes_le_cdevs ptr here.registered
    have hthere := nodes_le_cdevs ptr next.registered
    obtain ⟨hh, ht⟩ := hcdevs ptr
    rw [(hflags ptr).2, hlist]
    omega
  fresh := hfresh
  minorOff := hoff
  nextDev := hnext
  ndevices := hn

theorem minorStep_ida {off : Nat} (hlt : off < KBUF_DYN_MAX) (hfree : off ∉ r.ida) :
    MinorStep r (.create .ida) { r with ida := off :: r.ida } (.create (.kzalloc off)) := by
  refine .unlisted (fun other => ?_) (fun _ => ⟨rfl, rfl⟩) (fun _ => ⟨rfl, rfl⟩) (fun _ _ => rfl)
    rfl (fun other => ?_) (Nat.le_refl _) rfl
  · have hcount := count_cons_add r.ida off other
    have hkeeping : Registry.keeping { r with ida := off :: r.ida } other = r.keeping other := rfl
    dsimp only [DynLocal.registered, Registered.keeps]
    omega
  · by_cases ho : off = other
    · subst ho
      have hnone := List.count_eq_zero.mpr hfree
      refine Or.inr ⟨hlt, hnone, ?_⟩
      rw [List.count_cons_self, hnone]
    · left
      dsimp only
      rw [List.count_cons_of_ne ho]

theorem minorStep_kzalloc {off : Nat} (hready : MinorReady r (.create (.kzalloc off))) :
    MinorStep r (.create (.kzalloc off))
      { r.setDev r.nextDev (.fresh off) with nextDev := r.nextDev + 1 }
      (.create (.slots r.nextDev)) := by
  have hvacant := hready.vacant r.nextDev (Nat.le_refl _)
  refine .unlisted (fun other => ?_) (fun _ => ⟨rfl, rfl⟩) (fun ptr => ?_) (fun ptr hlt => ?_)
    rfl (fun _ => Or.inl (Nat.le_refl _)) (Nat.le_succ _) rfl
  · have hpush := tally_push (DynDev.keeps other) r.devs r.nextDev (.fresh off)
    have hfresh : (DynDev.fresh off).keeps other = if off = other then 1 else 0 :=
      keeps_kept ⟨rfl, rfl⟩ other
    dsimp only [DynLocal.registered, Registered.keeps, Registry.keeping, Registry.setDev]
    omega
  · by_cases hp : ptr = r.nextDev
    · subst hp
      dsimp only
      rw [setDev_self, hvacant]
      exact ⟨rfl, rfl⟩
    · dsimp only
      rw [setDev_of_ne r _ hp]
      exact ⟨rfl, rfl⟩
  · dsimp only
    rw [setDev_of_ne r _ (by omega)]

-- An instance that goes leaves its id behind.
theorem keeping_gone (hready : MinorReady r here) (hkeeps : (r.devs ptr).keepsMinor) (dev : DynDev)
    (hgone : ¬dev.keepsMinor) (off : Nat) :
    (r.setDev ptr dev).keeping off + (if (r.devs ptr).minorOff = off then 1 else 0) =
      r.keeping off := by
  have hset := keeping_setDev r off (hready.lt_of_kept hkeeps) dev
  rw [keeps_kept hkeeps, keeps_gone hgone] at hset
  exact hset

theorem flags_setDev {dev : DynDev} (hcdev : dev.cdev = (r.devs ptr).cdev)
    (hnode : dev.node = (r.devs ptr).node) (other : Nat) :
    ((r.setDev ptr dev).devs other).cdev = (r.devs other).cdev ∧
      ((r.setDev ptr dev).devs other).node = (r.devs other).node := by
  by_cases ho : other = ptr
  · subst ho
    rw [setDev_self]
    exact ⟨hcdev, hnode⟩
  · rw [setDev_of_ne r dev ho]
    exact ⟨rfl, rfl⟩

theorem minorOff_setDev {dev : DynDev} (hoff : dev.minorOff = (r.devs ptr).minorOff) (other : Nat) :
    ((r.setDev ptr dev).devs other).minorOff = (r.devs other).minorOff := by
  by_cases ho : other = ptr
  · subst ho
    rw [setDev_self, hoff]
  · rw [setDev_of_ne r dev ho]

theorem minorStep_errFree {e : Errno} (hready : MinorReady r (.create (.errFree ptr e))) :
    MinorStep r (.create (.errFree ptr e))
      (r.setDev ptr { r.devs ptr with aborted := (r.devs ptr).aborted + 1 })
      (.create (.errIda (r.devs ptr).minorOff e)) := by
  have hduties : (DynLocal.create (.errFree ptr e)).duties ptr = (1, 0, 1) := duties_of_owned rfl
  have hkeeps := hready.kept ptr (by rw [(duties_inj hduties).1]; exact Nat.succ_pos _)
  refine .unlisted (fun off => ?_) (fun _ => ⟨rfl, rfl⟩) (flags_setDev rfl rfl)
    (fun other _ => minorOff_setDev (by rfl) other) rfl (fun _ => Or.inl (Nat.le_refl _))
    (Nat.le_refl _) rfl
  have hgone := keeping_gone hready hkeeps
    { r.devs ptr with aborted := (r.devs ptr).aborted + 1 } (fun h => Nat.succ_ne_zero _ h.2) off
  dsimp only [DynLocal.registered, Registered.keeps, Registry.setDev] at hgone ⊢
  omega

theorem minorStep_errIda {off : Nat} {e : Errno} (hmem : off ∈ r.ida) :
    MinorStep r (.create (.errIda off e)) { r with ida := r.ida.erase off } (.done (.error e)) := by
  refine .unlisted (fun other => ?_) (fun _ => ⟨rfl, rfl⟩) (fun _ => ⟨rfl, rfl⟩) (fun _ _ => rfl)
    rfl (fun other => Or.inl (Nat.le.intro (count_erase_add r.ida off other hmem)))
    (Nat.le_refl _) rfl
  have herase := count_erase_add r.ida off other hmem
  have hkeeping : Registry.keeping { r with ida := r.ida.erase off } other = r.keeping other := rfl
  dsimp only [DynLocal.registered, Registered.keeps]
  omega

theorem minorStep_release {cont : Cont} (hready : MinorReady r (.release ptr cont)) :
    MinorStep r (.release ptr cont)
      { r.setDev ptr { r.devs ptr with
          mmap := false
          slots := false
          released := (r.devs ptr).released + 1 } with
        ida := r.ida.erase (r.devs ptr).minorOff } cont.resume := by
  have hreleasing := (duties_inj (duties_release ptr cont)).2.1
  have hkeeps := hready.kept ptr (by omega)
  have hmem := hready.taken ptr hkeeps
  refine .unlisted (fun off => ?_) (fun _ => ⟨rfl, by rw [registered_resume]; rfl⟩)
    (flags_setDev rfl rfl) (fun other _ => minorOff_setDev (by rfl) other) rfl
    (fun off => Or.inl (Nat.le.intro (count_erase_add r.ida _ off hmem))) (Nat.le_refl _) rfl
  have herase := count_erase_add r.ida (r.devs ptr).minorOff off hmem
  have hgone := keeping_gone hready hkeeps
    { r.devs ptr with
      mmap := false
      slots := false
      released := (r.devs ptr).released + 1 } (fun h => Nat.succ_ne_zero _ h.1) off
  rw [registered_resume]
  dsimp only [DynLocal.registered, Registered.keeps, Registry.keeping] at hgone ⊢
  omega

end Ids

section Moves

variable {r r' : Registry} {here next : DynLocal}

theorem CreateMove.minors {pc : CreatePc} (hready : MinorReady r (.create pc))
    (h : CreateMove r pc r' next) : MinorStep r (.create pc) r' next := by
  cases h with
  | ida hlt hfree => exact minorStep_ida hlt hfree
  | kzalloc => exact minorStep_kzalloc hready
  | listAdd => exact minorStep_listAdd
  | errFree => exact minorStep_errFree hready
  | errIda => exact minorStep_errIda (hready.held _ rfl)
  | slots | mmap | errMmap | errSlots => exact .setDev ⟨rfl, rfl, rfl, rfl, rfl⟩ rfl
  | @cdevAdd ptr =>
      have htoken : 0 < (DynLocal.create (.cdevAdd ptr)).token ptr := CreatePc.owned_token rfl
      exact .flags hready htoken ⟨rfl, rfl, rfl, rfl, rfl⟩ (counts_self ptr).symm
        (hready.node ptr htoken) (Or.inl rfl) (Or.inr (Or.inl rfl))
  | @deviceCreate ptr =>
      have htoken : 0 < (DynLocal.create (.deviceCreate ptr)).token ptr := CreatePc.owned_token rfl
      exact .flags hready htoken ⟨rfl, rfl, rfl, rfl, rfl⟩ (hready.cdev ptr htoken)
        (counts_self ptr).symm (Or.inr (Or.inl rfl)) (Or.inr (Or.inr rfl))
  | @errCdev ptr e =>
      have htoken : 0 < (DynLocal.create (.errCdev ptr e)).token ptr := CreatePc.owned_token rfl
      exact .flags hready htoken ⟨rfl, rfl, rfl, rfl, rfl⟩ rfl (hready.node ptr htoken)
        (Or.inr (Or.inl rfl)) (Or.inl rfl)
  | idaFail | kzallocFail | slotsFail | mmapFail | cdevAlloc | cdevAllocFail | cdevAddFail
  | deviceCreateFail | putUser | putUserFail => exact .same rfl

theorem PutMove.minors {ptr : Nat} {cont : Cont} {dev : DynDev}
    (h : PutMove (r.setDev ptr dev) ptr cont r' next) (hdev : SameMinor dev (r.devs ptr))
    (hhere : here.registered = .nothing) : MinorStep r here r' next := by
  have hsame (other : Nat) :
      SameMinor (((r.setDev ptr dev).krefPut ptr).devs other) (r.devs other) := by
    have hput : (r.setDev ptr dev).krefPut ptr = r.setDev ptr { dev with ref := dev.ref - 1 } := by
      rw [Registry.krefPut, setDev_self]
      simp only [Registry.setDev, Function.update_idem]
    rw [hput]
    refine sameMinor_setDev ?_ other
    exact ⟨hdev.minorOff, hdev.released, hdev.aborted, hdev.cdev, hdev.node⟩
  cases h with
  | last => exact .quiet hsame rfl rfl rfl rfl hhere.symm
  | more => exact .quiet hsame rfl rfl rfl rfl (by rw [registered_resume, hhere])

theorem TeardownMove.minors {ptr : Nat} {cont : Cont} {pc : TeardownPc}
    (hready : MinorReady r (.teardown ptr pc cont)) (h : TeardownMove r ptr cont pc r' next) :
    MinorStep r (.teardown ptr pc cont) r' next := by
  have htoken := token_teardown ptr pc cont
  cases h with
  | deviceDestroy =>
      exact .flags hready htoken ⟨rfl, rfl, rfl, rfl, rfl⟩ (hready.cdev ptr htoken) rfl
        (Or.inr (Or.inr rfl)) (Or.inr (Or.inl rfl))
  | cdevDel =>
      exact .flags hready htoken ⟨rfl, rfl, rfl, rfl, rfl⟩ rfl (hready.node ptr htoken)
        (Or.inr (Or.inl rfl)) (Or.inl rfl)
  | put h => exact h.minors ⟨rfl, rfl, rfl, rfl, rfl⟩ rfl

theorem OpenMove.minors {pc : OpenPc} (h : OpenMove r pc r' next) :
    MinorStep r (.opening pc) r' next := by
  cases h with
  | static | missing => exact .same rfl
  | found => exact .setDev ⟨rfl, rfl, rfl, rfl, rfl⟩ rfl
  | opened => exact .quiet (fun _ => .refl _) rfl rfl rfl rfl rfl

theorem DropMove.minors {handle : Nat} {value : Handle} {cont : Cont}
    (h : DropMove r handle value cont r' next) (hhere : here.registered = .nothing) :
    MinorStep r here r' next := by
  cases h with
  | kept => exact .quiet (fun _ => .refl _) rfl rfl rfl rfl (by rw [registered_resume, hhere])
  | last => exact .quiet (fun _ => .refl _) rfl rfl rfl rfl (by rw [registered_dispose, hhere])

theorem FileMove.minors (h : FileMove r here r' next) : MinorStep r here r' next := by
  cases h with
  | close _ h | fdput h => exact h.minors rfl
  | closing => exact .same (registered_unpin _ _)
  | dup | fdgetUse | fdgetResize | fdgetExport =>
      exact .quiet (fun _ => .refl _) rfl rfl rfl rfl rfl
  | dupBad | closeBad | fdgetBad | use | resizing | resizingFail => exact .same rfl

theorem ExportMove.minors {handle : Nat} {pc : ExportPc} (h : ExportMove r handle pc r' next) :
    MinorStep r (.exporting handle pc) r' next := by
  cases h with
  | @get dev =>
      cases dev with
      | static => exact .same rfl
      | dyn => exact .setDev ⟨rfl, rfl, rfl, rfl, rfl⟩ rfl
  | dmaBufExportFail => exact .same (registered_unpin _ _)
  | dmaBufFdFail h | closeFd _ h => exact h.minors rfl
  | dmaBufExport | dmaBufFd => exact .quiet (fun _ => .refl _) rfl rfl rfl rfl rfl
  | name | putUser | putUserFail | closeFdBad => exact .same rfl

theorem registered_enter (hhere : here = .idle ∨ ∃ ret, here = .done ret) (request : DynRequest) :
    request.enter.registered = here.registered := by
  rcases hhere with rfl | ⟨ret, rfl⟩ <;> cases request <;> rfl

theorem DynMove.minors {choice : DynChoice} (hready : MinorReady r here)
    (h : DynMove r choice here r' next) : MinorStep r here r' next := by
  cases h with
  | enter hhere => exact .same (registered_enter hhere _)
  | enterUnload hhere =>
      exact .quiet (fun _ => .refl _) rfl rfl rfl rfl (registered_enter hhere .unload)
  | create h => exact h.minors hready
  | getUser | getUserFail => exact .same rfl
  | unlink h =>
      cases h with
      | missing => exact .same rfl
      | found hfind => exact minorStep_erase (find_mem hfind) rfl
  | teardown h => exact h.minors hready
  | @put _ ptr cont _ _ h =>
      rw [← setDev_eq_self r ptr] at h
      exact h.minors (.refl _) rfl
  | release => exact minorStep_release hready
  | opening h => exact h.minors
  | file h => exact h.minors
  | exporting h => exact h.minors
  | unloadEnd => exact .quiet (fun _ => .refl _) rfl rfl rfl rfl rfl
  | @unloadNext _ ptr rest hlist =>
      obtain ⟨herase, hmem⟩ := erase_head hlist
      rw [herase]
      exact minorStep_erase hmem rfl

end Moves

end Kbuf
