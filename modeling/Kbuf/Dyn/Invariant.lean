import Kbuf.Dyn.Balance

namespace Kbuf

open Interleaving Tally

section Moves

variable {r r' : Registry} {here next : DynLocal}

theorem CreateMove.books {pc : CreatePc} (hready : Ready r (.create pc))
    (h : CreateMove r pc r' next) : BookStep r (.create pc) r' next := by
  have hlt {ptr : Nat} (howned : pc.owned = some ptr) : ptr < r.nextDev := by
    have htoken : (DynLocal.create pc).token ptr = 1 := (duties_inj (duties_of_owned howned)).1
    exact hready.lt_of_ref (hready.owned ptr (by omega))
  cases h with
  | kzalloc => exact kzalloc_books hready
  | listAdd => exact listAdd_books hready
  | errFree => exact errFree_books hready
  | ida | errIda =>
      exact .quiet hready ⟨fun _ => rfl, fun _ => rfl, fun _ => rfl, Or.inl rfl⟩
        (fun _ => .refl _) (fun _ _ => rfl) rfl rfl rfl rfl
  | slots | mmap | cdevAdd | deviceCreate | errCdev | errMmap | errSlots =>
      refine .setDev hready ?_ ?_ (hlt rfl)
      · exact ⟨fun _ => rfl, fun _ => rfl, fun _ => rfl, Or.inl rfl⟩
      · exact ⟨rfl, rfl, rfl, rfl⟩
  | idaFail | kzallocFail | slotsFail | mmapFail | cdevAlloc | cdevAllocFail | cdevAddFail
  | deviceCreateFail | putUser | putUserFail =>
      exact .same hready ⟨fun _ => rfl, fun _ => rfl, fun _ => rfl, Or.inl rfl⟩

theorem TeardownMove.books {ptr : Nat} {cont : Cont} {pc : TeardownPc}
    (hready : Ready r (.teardown ptr pc cont)) (h : TeardownMove r ptr cont pc r' next) :
    BookStep r (.teardown ptr pc cont) r' next := by
  have hduties := duties_teardown ptr pc cont
  have hpos := hready.owned ptr (token_teardown ptr pc cont)
  have hw (pc' : TeardownPc) :
      SameWeights (.teardown ptr pc' cont) (.teardown ptr pc cont) :=
    ⟨fun _ => rfl, fun _ => rfl, fun _ => rfl, Or.inl rfl⟩
  cases h with
  | deviceDestroy | cdevDel =>
      refine .setDev hready (hw _) ?_ (hready.lt_of_ref hpos)
      exact ⟨rfl, rfl, rfl, rfl⟩
  | put h =>
      exact h.books hready hpos rfl rfl rfl rfl rfl hduties
        (fun other hp => ⟨rfl, duties_teardown_of_ne hp _ cont⟩) fun _ => rfl

theorem OpenMove.books {pc : OpenPc} (hready : Ready r (.opening pc))
    (h : OpenMove r pc r' next) : BookStep r (.opening pc) r' next := by
  cases h with
  | static | missing =>
      exact .same hready ⟨fun _ => rfl, fun _ => rfl, fun _ => rfl, Or.inl rfl⟩
  | found hm hfind =>
      exact krefGet_books hready (hready.listed _ (find_mem hfind)) (Or.inl (find_mem hfind))
        (fun _ => (Nat.zero_add _).symm) (fun _ => rfl) (fun _ => rfl) rfl
  | opened =>
      refine addHandle_books hready rfl (fun _ => rfl) (fun _ => rfl) (fun other => ?_) rfl
      rw [ite_self]
      rfl

-- A call that is about to drop its reference has nothing else in hand.
theorem sameWeights_unpin {dev : DevPtr} {cont : Cont} (hholds : ∀ ptr, here.holds ptr =
      dev.counts ptr) (hduties : ∀ ptr, here.duties ptr = (0, 0, 0))
    (huses : ∀ handle, here.uses handle = cont.uses handle) :
    SameWeights (dev.unpin cont) here := by
  refine ⟨fun ptr => ?_, fun ptr => ?_, fun handle => ?_, Or.inl (onFile_unpin dev cont)⟩
  · rw [holds_unpin, hholds]
  · rw [duties_unpin, hduties]
  · rw [uses_unpin, huses]

-- A call starts on a file that a descriptor keeps open.
theorem fdget_books {handle : Nat} {call : FileCall} (hready : Ready r (.fdget handle call))
    (hfds : 0 < (r.handles handle).fds) (hholds : ∀ ptr, next.holds ptr = 0)
    (hduties : ∀ ptr, next.duties ptr = (0, 0, 0))
    (huses : ∀ other, next.uses other = if handle = other then 1 else 0)
    (hfile : ∀ other dev, next.onFile = some (other, dev) →
      other = handle ∧ (r.handles handle).dev = dev) :
    BookStep r (.fdget handle call)
      (r.setHandle handle { r.handles handle with busy := (r.handles handle).busy + 1 }) next := by
  have hlive := live_of_fds hfds
  refine .setHandle hready hlive rfl (fun ptr => ?_) hduties ?_ (fun other ho => ?_)
    fun other dev ho => ?_
  · have hbusy : Handle.live { r.handles handle with busy := (r.handles handle).busy + 1 } :=
      live_of_busy (Nat.succ_pos _)
    rw [binds_live hlive, binds_live hbusy, hholds]
    rfl
  · rw [huses, if_pos rfl]
    rfl
  · rw [huses, if_neg (Ne.symm ho)]
    rfl
  · obtain ⟨rfl, hdev⟩ := hfile other dev ho
    exact hdev

theorem FileMove.books (hready : Ready r here) (h : FileMove r here r' next) :
    BookStep r here r' next := by
  cases h with
  | dupBad | closeBad | fdgetBad | use | resizing | resizingFail =>
      exact .same hready ⟨fun _ => rfl, fun _ => rfl, fun _ => rfl, Or.inl rfl⟩
  | closing =>
      exact .same hready (sameWeights_unpin (fun _ => rfl) (fun _ => rfl) fun _ => rfl)
  | dup hfds =>
      refine .setHandle hready (live_of_fds hfds) rfl (fun ptr => ?_) (fun _ => rfl) rfl
        (fun _ _ => rfl) nofun
      rw [binds_live (live_of_fds hfds), binds_live (live_of_fds (Nat.succ_pos _))]
      rfl
  | close hfds h =>
      exact h.books hready (live_of_fds hfds) rfl (fun _ => rfl) (fun _ => rfl) rfl fun _ _ => rfl
  | fdgetUse hkind hfds | fdgetResize hkind hfds =>
      refine fdget_books hready hfds (fun _ => rfl) (fun _ => rfl) (fun _ => rfl)
        fun other dev ho => ?_
      obtain ⟨rfl, rfl⟩ := Prod.mk.inj (Option.some.inj ho)
      exact ⟨rfl, rfl⟩
  | fdgetExport hkind hfds =>
      refine fdget_books hready hfds (fun _ => rfl) (fun _ => rfl) (fun _ => Nat.add_zero _)
        fun other dev ho => ?_
      obtain ⟨rfl, rfl⟩ := Prod.mk.inj (Option.some.inj ho)
      exact ⟨rfl, rfl⟩
  | @fdput handle ret _ _ h =>
      have hbusy := hready.fdput
      refine h.books hready (live_of_busy hbusy) rfl (fun _ => rfl) (fun _ => rfl) ?_
        fun other ho => (if_neg (Ne.symm ho)).symm
      have hone : (DynLocal.fdput handle ret).uses handle = 1 := if_pos rfl
      rw [hone]
      exact Nat.sub_add_cancel hbusy

-- The buffer under construction is in use by the export that makes it.
theorem Ready.dmaBufFd {handle buf : Nat} (hready : Ready r (.exporting handle (.dmaBufFd buf))) :
    (r.handles buf).busy - 1 + (DynLocal.exporting handle (.dmaBufFd buf)).uses buf =
      (r.handles buf).busy + (if handle = buf then 1 else 0) ∧ 0 < (r.handles buf).busy := by
  have hused := hready.used buf
  have huses : (DynLocal.exporting handle (.dmaBufFd buf)).uses buf =
      (if handle = buf then 1 else 0) + 1 := by
    simp [DynLocal.uses, ExportPc.uses]
  rw [huses] at hused ⊢
  omega

theorem uses_dmaBufFd_of_ne {handle buf other : Nat} (h : other ≠ buf) :
    (DynLocal.exporting handle (.dmaBufFd buf)).uses other = if handle = other then 1 else 0 := by
  simp [DynLocal.uses, ExportPc.uses, Ne.symm h]

theorem ExportMove.books {handle : Nat} {pc : ExportPc} (hready : Ready r (.exporting handle pc))
    (h : ExportMove r handle pc r' next) : BookStep r (.exporting handle pc) r' next := by
  cases h with
  | name =>
      exact .same hready ⟨fun _ => rfl, fun _ => rfl, fun _ => rfl, Or.inr rfl⟩
  | putUser | putUserFail | closeFdBad =>
      exact .same hready ⟨fun _ => rfl, fun _ => rfl, fun _ => rfl, Or.inl rfl⟩
  | @get dev =>
      cases dev with
      | static =>
          exact .same hready ⟨fun _ => rfl, fun _ => rfl, fun _ => rfl, Or.inl rfl⟩
      | dyn ptr =>
          have hone : (DynLocal.exporting handle (.get (.dyn ptr))).uses handle = 1 := if_pos rfl
          have hbound := hready.bound_of_onFile rfl (by rw [hone]; exact Nat.one_pos)
          exact krefGet_books hready (hready.bound ptr hbound) (Or.inr hbound)
            (fun _ => (Nat.zero_add _).symm) (fun _ => rfl) (fun _ => rfl) rfl
  | @dmaBufExport dev =>
      refine addHandle_books hready rfl (fun _ => rfl) (fun _ => rfl) (fun other => ?_) rfl
      change _ + (if r.nextHandle = other then 1 else 0) = _ + 0 + _
      simp only [eq_comm, Nat.add_zero]
  | dmaBufExportFail =>
      exact .same hready (sameWeights_unpin (fun _ => rfl) (fun _ => rfl) fun _ => Nat.add_zero _)
  | dmaBufFd =>
      obtain ⟨hbusy, hpos⟩ := hready.dmaBufFd
      refine .setHandle hready (live_of_busy hpos) rfl (fun ptr => ?_) (fun _ => rfl) hbusy
        (fun other ho => (uses_dmaBufFd_of_ne ho).symm) nofun
      rw [binds_live (live_of_busy hpos), binds_live (live_of_fds (Nat.succ_pos _))]
      rfl
  | dmaBufFdFail h =>
      obtain ⟨hbusy, hpos⟩ := hready.dmaBufFd
      exact h.books hready (live_of_busy hpos) rfl (fun _ => rfl) (fun _ => rfl) hbusy
        fun other ho => (uses_dmaBufFd_of_ne ho).symm
  | closeFd hfds h =>
      exact h.books hready (live_of_fds hfds) rfl (fun _ => rfl) (fun _ => rfl) rfl fun _ _ => rfl

-- A request takes nothing before its first step.
theorem sameWeights_enter (hhere : here = .idle ∨ ∃ ret, here = .done ret)
    (request : DynRequest) : SameWeights request.enter here := by
  rcases hhere with rfl | ⟨ret, rfl⟩ <;> cases request <;>
    exact ⟨fun _ => rfl, fun _ => rfl, fun _ => rfl, Or.inl rfl⟩

theorem DynMove.books {choice : DynChoice} (hready : Ready r here)
    (h : DynMove r choice here r' next) : BookStep r here r' next := by
  cases h with
  | enter hhere => exact .same hready (sameWeights_enter hhere _)
  | enterUnload hhere =>
      exact .quiet hready (sameWeights_enter hhere .unload) (fun _ => .refl _) (fun _ _ => rfl)
        rfl rfl rfl rfl
  | create h => exact h.books hready
  | getUser | getUserFail =>
      exact .same hready ⟨fun _ => rfl, fun _ => rfl, fun _ => rfl, Or.inl rfl⟩
  | unlink h =>
      cases h with
      | missing =>
          exact .same hready ⟨fun _ => rfl, fun _ => rfl, fun _ => rfl, Or.inl rfl⟩
      | found hfind =>
          exact erase_books hready (find_mem hfind) (fun _ => rfl) (fun _ => rfl) fun _ => rfl
  | teardown h => exact h.books hready
  | @put _ ptr cont _ _ h =>
      have hone : (DynLocal.put ptr cont).holds ptr = 1 := counts_self ptr
      rw [← setDev_eq_self r ptr] at h
      exact h.books hready (hready.held ptr (by omega)) rfl rfl rfl rfl hone rfl
        (fun other hp => ⟨counts_of_ne (Ne.symm hp), rfl⟩) fun _ => rfl
  | release => exact release_books hready
  | opening h => exact h.books hready
  | file h => exact h.books hready
  | exporting h => exact h.books hready
  | unloadEnd =>
      exact .quiet hready ⟨fun _ => rfl, fun _ => rfl, fun _ => rfl, Or.inl rfl⟩
        (fun _ => .refl _) (fun _ _ => rfl) rfl rfl rfl rfl
  | @unloadNext _ ptr rest hlist =>
      obtain ⟨herase, hmem⟩ := erase_head hlist
      rw [herase]
      exact erase_books hready hmem (fun _ => rfl) (fun _ => rfl) fun _ => rfl

end Moves

section Runs

-- The books of the first `n` processes, the only ones that run.
structure BooksInv (n : Nat) (s : DynSystem) : Prop where
  idle : ∀ p, n ≤ p → s.locals p = .idle
  vacant : ∀ ptr, s.shared.nextDev ≤ ptr → s.shared.devs ptr = .vacant
  fresh : ∀ handle, s.shared.nextHandle ≤ handle → (s.shared.handles handle).live = false
  refs : ∀ ptr, (s.shared.devs ptr).ref + (s.shared.devs ptr).dropped =
    1 + s.shared.bound ptr + tally (DynLocal.holds ptr) s.locals n
  tokens : ∀ ptr, s.shared.list.count ptr + tally (DynLocal.token ptr) s.locals n +
    (s.shared.devs ptr).dropped + (s.shared.devs ptr).aborted = 1
  releases : ∀ ptr, (s.shared.devs ptr).released + tally (DynLocal.releasing ptr) s.locals n +
    min 1 (s.shared.devs ptr).ref = 1
  hidden : ∀ ptr, 0 < tally (DynLocal.creating ptr) s.locals n + (s.shared.devs ptr).aborted →
    s.shared.bound ptr + tally (DynLocal.holds ptr) s.locals n = 0
  busy : ∀ handle, (s.shared.handles handle).busy = tally (DynLocal.uses handle) s.locals n
  onFile : ∀ p handle dev, (s.locals p).onFile = some (handle, dev) →
    (s.shared.handles handle).dev = dev

variable {n : Nat} {s t : DynSystem}

theorem tally_boot {weight : DynLocal → Nat} (h : weight .idle = 0) (ndevices n : Nat) :
    tally weight (dynBoot ndevices).locals n = 0 :=
  tally_eq_zero _ _ fun _ _ => h

theorem booksInv_boot (ndevices n : Nat) : BooksInv n (dynBoot ndevices) where
  idle _ _ := rfl
  vacant _ _ := rfl
  fresh _ _ := rfl
  refs ptr := by
    rw [tally_boot rfl]
    rfl
  tokens ptr := by
    rw [tally_boot rfl]
    rfl
  releases ptr := by
    rw [tally_boot rfl]
    rfl
  hidden ptr _ := by
    rw [tally_boot rfl]
    rfl
  busy handle := (tally_boot rfl ndevices n).symm
  onFile _ _ _ h := nomatch h

theorem creating_le_token (ptr : Nat) (here : DynLocal) : here.creating ptr ≤ here.token ptr := by
  cases here with
  | create => exact Nat.le_refl _
  | _ => exact Nat.zero_le _

theorem tally_creating_le (s : DynSystem) (n ptr : Nat) :
    tally (DynLocal.creating ptr) s.locals n ≤ tally (DynLocal.token ptr) s.locals n :=
  Finset.sum_le_sum fun p _ => creating_le_token ptr (s.locals p)

-- A device whose registered reference is still to be dropped has a reference.
theorem BooksInv.ref_pos (h : BooksInv n s) {ptr : Nat}
    (hpos : 0 < s.shared.list.count ptr + tally (DynLocal.token ptr) s.locals n +
      s.shared.bound ptr + tally (DynLocal.holds ptr) s.locals n) :
    0 < (s.shared.devs ptr).ref := by
  have hrefs := h.refs ptr
  have htokens := h.tokens ptr
  omega

theorem BooksInv.ready (h : BooksInv n s) {p : Nat} (hp : p < n) :
    Ready s.shared (s.locals p) where
  vacant := h.vacant
  fresh := h.fresh
  listed ptr hmem := by
    have hcount : 0 < s.shared.list.count ptr := List.count_pos_iff.mpr hmem
    exact h.ref_pos (by omega)
  held ptr hpos := by
    have hle := le_tally (DynLocal.holds ptr) s.locals hp
    exact h.ref_pos (by omega)
  owned ptr hpos := by
    have hle := le_tally (DynLocal.token ptr) s.locals hp
    exact h.ref_pos (by omega)
  releasing ptr hpos := by
    by_contra hlt
    have hle := le_tally (DynLocal.releasing ptr) s.locals hp
    have hreleases := h.releases ptr
    have hvacant := h.vacant ptr (Nat.le_of_not_lt hlt)
    have hreleased : (s.shared.devs ptr).released = 1 := by rw [hvacant]; rfl
    omega
  bound ptr hpos := h.ref_pos (by omega)
  used handle := by
    rw [h.busy handle]
    exact le_tally (DynLocal.uses handle) s.locals hp
  onFile := h.onFile p

theorem uses_of_onFile {here : DynLocal} {handle : Nat} {dev : DevPtr}
    (h : here.onFile = some (handle, dev)) : 0 < here.uses handle := by
  unfold DynLocal.onFile at h
  split at h
  all_goals cases h
  all_goals simp [DynLocal.uses]

theorem BooksInv.lt_of_onFile (h : BooksInv n s) {p handle : Nat} {dev : DevPtr}
    (hfile : (s.locals p).onFile = some (handle, dev)) : p < n := by
  by_contra hlt
  rw [h.idle p (Nat.le_of_not_lt hlt)] at hfile
  cases hfile

-- The file that a call runs on is in use.
theorem BooksInv.live_of_onFile (h : BooksInv n s) {p handle : Nat} {dev : DevPtr}
    (hfile : (s.locals p).onFile = some (handle, dev)) :
    (s.shared.handles handle).live = true := by
  have hle := le_tally (DynLocal.uses handle) s.locals (h.lt_of_onFile hfile)
  have hpos := uses_of_onFile hfile
  have hbusy := h.busy handle
  exact live_of_busy (by omega)

theorem BooksInv.bound_pos (h : BooksInv n s) {handle ptr : Nat}
    (hlive : (s.shared.handles handle).live = true)
    (hdev : (s.shared.handles handle).dev = .dyn ptr) : 0 < s.shared.bound ptr := by
  have hlt : handle < s.shared.nextHandle := by
    by_contra hge
    rw [h.fresh handle (Nat.le_of_not_lt hge)] at hlive
    cases hlive
  have hle : (s.shared.handles handle).binds ptr ≤ s.shared.bound ptr :=
    le_tally (Handle.binds ptr) s.shared.handles hlt
  rwa [binds_live hlive, hdev, counts_self] at hle

theorem tally_put (s : DynSystem) (weight : DynLocal → Nat) {p : Nat} (hp : p < n) (r' : Registry)
    (next : DynLocal) : tally weight (s.put p (r', next)).locals n + weight (s.locals p) =
      tally weight s.locals n + weight next :=
  tally_update weight s.locals hp next

-- A device that only its creator can find stays hidden: the list does not lead to
-- it and no file does.
theorem BooksInv.hidden_step (h : BooksInv n s) {p : Nat} (hp : p < n) {r' : Registry}
    {next : DynLocal} (hbooks : BookStep s.shared (s.locals p) r' next) (ptr : Nat)
    (hpos : 0 < tally (DynLocal.creating ptr) (s.put p (r', next)).locals n +
      (r'.devs ptr).aborted) :
    r'.bound ptr + tally (DynLocal.holds ptr) (s.put p (r', next)).locals n = 0 := by
  obtain ⟨hrefs, -, -, hhidden, hgrows⟩ := hbooks.balanced ptr
  have hholds := tally_put s (DynLocal.holds ptr) hp r' next
  have hcreating := tally_put s (DynLocal.creating ptr) hp r' next
  have hle := tally_creating_le s n ptr
  have htokens := h.tokens ptr
  have hbefore : s.shared.bound ptr + tally (DynLocal.holds ptr) s.locals n = 0 ∧
      s.shared.list.count ptr = 0 := by
    rcases hhidden with hhidden | hvacant
    · exact ⟨h.hidden ptr (by omega), by omega⟩
    · have hsum := h.refs ptr
      have href : (s.shared.devs ptr).ref = 0 := by rw [hvacant]; rfl
      have hdropped : (s.shared.devs ptr).dropped = 1 := by rw [hvacant]; rfl
      omega
  have hlist : ptr ∉ s.shared.list := List.count_eq_zero.mp hbefore.2
  rcases hgrows with hle | hmem | hbound
  · omega
  · exact absurd hmem hlist
  · omega

theorem booksInv_step (h : BooksInv n s) {act : Act DynChoice} (hpid : act.pid < n)
    (hstep : step dynDriver s act = some t) : BooksInv n t := by
  obtain ⟨r', next, hmove, rfl⟩ := dyn_step_move hstep
  have hbooks := hmove.books (h.ready hpid)
  refine ⟨fun p hp => ?_, hbooks.vacant, hbooks.fresh, fun ptr => ?_, fun ptr => ?_, fun ptr => ?_,
    fun ptr => h.hidden_step hpid hbooks ptr, fun handle => ?_, fun p handle dev hfile => ?_⟩
  · rw [State.put_locals_of_ne s _ (by omega)]
    exact h.idle p hp
  · have hput := tally_put s (DynLocal.holds ptr) hpid r' next
    have hrefs := (hbooks.balanced ptr).refs
    have hbefore := h.refs ptr
    simp only [State.put_shared]
    omega
  · have hput := tally_put s (DynLocal.token ptr) hpid r' next
    have htokens := (hbooks.balanced ptr).tokens
    have hbefore := h.tokens ptr
    simp only [State.put_shared]
    omega
  · have hput := tally_put s (DynLocal.releasing ptr) hpid r' next
    have hreleases := (hbooks.balanced ptr).releases
    have hbefore := h.releases ptr
    simp only [State.put_shared]
    omega
  · have hput := tally_put s (DynLocal.uses handle) hpid r' next
    have hbusy := hbooks.busy handle
    have hbefore := h.busy handle
    simp only [State.put_shared]
    omega
  · by_cases hp : p = act.pid
    · subst hp
      rw [State.put_locals_self] at hfile
      exact hbooks.onFile handle dev hfile
    · rw [State.put_locals_of_ne s _ hp] at hfile
      have hlt := (h.ready hpid).lt_of_live (h.live_of_onFile hfile)
      exact (hbooks.dev_eq handle hlt).trans (h.onFile p handle dev hfile)

end Runs

end Kbuf
