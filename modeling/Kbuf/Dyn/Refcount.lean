import Kbuf.Dyn.Invariant
import Kbuf.Dyn.Unload

namespace Kbuf

open Interleaving Tally

section Holders

def Handle.refers (kind : HandleKind) (ptr : Nat) (handle : Handle) : Nat :=
  if handle.live = true ∧ handle.kind = kind ∧ handle.dev = .dyn ptr then 1 else 0

def Registry.openFiles (r : Registry) (ptr : Nat) : Nat :=
  tally (Handle.refers .file ptr) r.handles r.nextHandle

def Registry.liveDmabufs (r : Registry) (ptr : Nat) : Nat :=
  tally (Handle.refers .dmabuf ptr) r.handles r.nextHandle

-- Nothing leads to the device any more: no lookup finds it, no file or dma-buf
-- refers to it, and no call in flight knows it.
structure Unreachable (s : DynSystem) (ptr : Nat) : Prop where
  unlisted : ptr ∉ s.shared.list
  files : ∀ handle, (s.shared.handles handle).live = true →
    (s.shared.handles handle).dev ≠ .dyn ptr
  held : ∀ p, (s.locals p).holds ptr = 0
  owned : ∀ p, (s.locals p).token ptr = 0
  used : ∀ p handle, (s.locals p).onFile ≠ some (handle, .dyn ptr)

theorem binds_eq_refers (ptr : Nat) (handle : Handle) :
    handle.binds ptr = handle.refers .file ptr + handle.refers .dmabuf ptr := by
  obtain ⟨kind, dev, fds, busy⟩ := handle
  unfold Handle.binds Handle.refers DevPtr.counts
  cases kind with
  | file => simp [ite_and]
  | dmabuf => simp [ite_and]

theorem bound_eq_refers (r : Registry) (ptr : Nat) :
    r.bound ptr = r.openFiles ptr + r.liveDmabufs ptr := by
  have hweights : Handle.binds ptr = fun handle =>
      Handle.refers .file ptr handle + Handle.refers .dmabuf ptr handle :=
    funext (binds_eq_refers ptr)
  rw [Registry.bound, hweights, tally_add]
  rfl

end Holders

section Books

variable {n : Nat} {s : DynSystem} {ptr : Nat}

theorem BooksInv.le_of_process (h : BooksInv n s) (weight : DynLocal → Nat)
    (hidle : weight .idle = 0) (p : Nat) : weight (s.locals p) ≤ tally weight s.locals n := by
  by_cases hp : p < n
  · exact le_tally weight s.locals hp
  · rw [h.idle p (Nat.le_of_not_lt hp), hidle]
    exact Nat.zero_le _

theorem BooksInv.unreachable (h : BooksInv n s) (hcount : s.shared.list.count ptr = 0)
    (hbound : s.shared.bound ptr = 0) (hholds : tally (DynLocal.holds ptr) s.locals n = 0)
    (htoken : tally (DynLocal.token ptr) s.locals n = 0) : Unreachable s ptr := by
  have hfiles (handle : Nat) (hlive : (s.shared.handles handle).live = true) :
      (s.shared.handles handle).dev ≠ .dyn ptr := by
    intro hdev
    have hpos := h.bound_pos hlive hdev
    omega
  refine ⟨List.count_eq_zero.mp hcount, hfiles, fun p => ?_, fun p => ?_, fun p handle hfile => ?_⟩
  · have hle := h.le_of_process (DynLocal.holds ptr) rfl p
    omega
  · have hle := h.le_of_process (DynLocal.token ptr) rfl p
    omega
  · exact hfiles handle (h.live_of_onFile hfile) (h.onFile p handle _ hfile)

-- A device that is being released, was released, or whose creation failed.
theorem BooksInv.unreachable_of_gone (h : BooksInv n s)
    (hgone : 0 < (s.shared.devs ptr).released + tally (DynLocal.releasing ptr) s.locals n +
      (s.shared.devs ptr).aborted) : Unreachable s ptr := by
  have hrefs := h.refs ptr
  have htokens := h.tokens ptr
  have hreleases := h.releases ptr
  by_cases haborted : 0 < (s.shared.devs ptr).aborted
  · have hhidden := h.hidden ptr (by omega)
    exact h.unreachable (by omega) (by omega) (by omega) (by omega)
  · exact h.unreachable (by omega) (by omega) (by omega) (by omega)

theorem BooksInv.ref_eq (h : BooksInv n s) (ptr : Nat) :
    (s.shared.devs ptr).ref = (if (s.shared.devs ptr).dropped = 0 then 1 else 0) +
      s.shared.openFiles ptr + s.shared.liveDmabufs ptr +
        tally (DynLocal.holds ptr) s.locals n := by
  have hrefs := h.refs ptr
  have htokens := h.tokens ptr
  rw [bound_eq_refers] at hrefs
  split
  · omega
  · omega

theorem BooksInv.released_eq (h : BooksInv n s) (ptr : Nat) :
    (s.shared.devs ptr).released + tally (DynLocal.releasing ptr) s.locals n =
      if (s.shared.devs ptr).ref = 0 then 1 else 0 := by
  have hreleases := h.releases ptr
  split
  · omega
  · omega

theorem weight_of_resting {here : DynLocal} (h : here.resting = true) (ptr : Nat) :
    here.holds ptr = 0 ∧ here.token ptr = 0 ∧ here.releasing ptr = 0 := by
  cases here with
  | idle | done => exact ⟨rfl, rfl, rfl⟩
  | _ => cases h

-- With everybody at rest, no file left and nothing listed, every device is gone.
theorem BooksInv.gone (h : BooksInv n s) (hlist : s.shared.list = [])
    (hrest : ∀ p, (s.locals p).resting = true)
    (hdead : ∀ handle, (s.shared.handles handle).live = false) (ptr : Nat) :
    (s.shared.devs ptr).aborted = 1 ∨ ((s.shared.devs ptr).ref = 0 ∧
      (s.shared.devs ptr).dropped = 1 ∧ (s.shared.devs ptr).released = 1) := by
  have hholds : tally (DynLocal.holds ptr) s.locals n = 0 :=
    tally_eq_zero _ _ fun p _ => (weight_of_resting (hrest p) ptr).1
  have htoken : tally (DynLocal.token ptr) s.locals n = 0 :=
    tally_eq_zero _ _ fun p _ => (weight_of_resting (hrest p) ptr).2.1
  have hreleasing : tally (DynLocal.releasing ptr) s.locals n = 0 :=
    tally_eq_zero _ _ fun p _ => (weight_of_resting (hrest p) ptr).2.2
  have hbound : s.shared.bound ptr = 0 :=
    tally_eq_zero _ _ fun handle _ => binds_dead (hdead handle)
  have hcount : s.shared.list.count ptr = 0 := by
    rw [hlist]
    rfl
  have hrefs := h.refs ptr
  have htokens := h.tokens ptr
  have hreleases := h.releases ptr
  by_cases haborted : (s.shared.devs ptr).aborted = 1
  · exact Or.inl haborted
  · exact Or.inr ⟨by omega, by omega, by omega⟩

end Books

section Refcount

structure DynInv (n : Nat) (s : DynSystem) : Prop where
  books : BooksInv n s
  unload : UnloadInv s

theorem dynInv_step {n : Nat} {s t : DynSystem} {act : Act DynChoice} (h : DynInv n s)
    (hok : UnloadsIdle s act ∧ act.pid < n) (hstep : step dynDriver s act = some t) :
    DynInv n t :=
  ⟨booksInv_step h.books hok.2 hstep, unloadInv_step h.unload hok.1 hstep⟩

-- Every device of the heap, `holds` and `releasing` being the references that calls
-- in flight hold and the calls that are about to run kbuf_dev_release.
theorem dyn_refcount_exact {n ndevices : Nat} {acts : List (Act DynChoice)} {s : DynSystem}
    (hpids : ∀ act ∈ acts, act.pid < n)
    (hidle : Along dynDriver UnloadsIdle (dynBoot ndevices) acts)
    (hrun : run dynDriver (dynBoot ndevices) acts = some s) (ptr : Nat) :
    (s.shared.devs ptr).ref = (if (s.shared.devs ptr).dropped = 0 then 1 else 0) +
        s.shared.openFiles ptr + s.shared.liveDmabufs ptr +
          tally (DynLocal.holds ptr) s.locals n ∧
      s.shared.list.count ptr + tally (DynLocal.token ptr) s.locals n +
        (s.shared.devs ptr).dropped + (s.shared.devs ptr).aborted = 1 ∧
      ((s.shared.devs ptr).released + tally (DynLocal.releasing ptr) s.locals n =
        if (s.shared.devs ptr).ref = 0 then 1 else 0) ∧
      (0 < (s.shared.devs ptr).released + tally (DynLocal.releasing ptr) s.locals n +
        (s.shared.devs ptr).aborted → Unreachable s ptr) ∧
      (s.shared.unloaded = true → (s.shared.devs ptr).aborted = 1 ∨
        ((s.shared.devs ptr).ref = 0 ∧ (s.shared.devs ptr).dropped = 1 ∧
          (s.shared.devs ptr).released = 1)) := by
  have hok : Along dynDriver (fun s act => UnloadsIdle s act ∧ act.pid < n) (dynBoot ndevices)
      acts := hidle.and (along_of_mem fun _ act hmem => hpids act hmem)
  obtain ⟨hbooks, hunload⟩ : DynInv n s :=
    run_invariant (fun _ _ _ => dynInv_step) ⟨booksInv_boot ndevices n, unloadInv_boot ndevices⟩
      hok hrun
  refine ⟨hbooks.ref_eq ptr, hbooks.tokens ptr, hbooks.released_eq ptr,
    hbooks.unreachable_of_gone, fun hunloaded => ?_⟩
  obtain ⟨hlist, hrest⟩ := hunload.unloaded hunloaded
  have hloaded : s.shared.loaded = false := by
    cases hl : s.shared.loaded with
    | false => rfl
    | true => exact absurd ((hunload.loaded hl).1.symm.trans hunloaded) Bool.noConfusion
  exact hbooks.gone hlist hrest (hunload.unloading hloaded).1 ptr

-- The device is opened and exported while it is being destroyed. It outlives its
-- id and its file, and the end of the dma-buf releases it.
def exportedDestroy : List (Act DynChoice) :=
  createDyn 0 0 ++ [⟨1, .start (.openMinor 2)⟩, ⟨1, .go⟩, ⟨0, .start (.destroy 0)⟩, ⟨0, .go⟩,
    ⟨0, .go⟩, ⟨1, .go⟩, ⟨1, .start (.iocExport 0)⟩, ⟨1, .go⟩, ⟨0, .go⟩, ⟨0, .go⟩, ⟨1, .go⟩,
    ⟨0, .go⟩, ⟨1, .go⟩, ⟨1, .go⟩, ⟨1, .go⟩, ⟨1, .go⟩, ⟨1, .go⟩, ⟨1, .start (.close 0)⟩, ⟨1, .go⟩,
    ⟨1, .go⟩, ⟨1, .go⟩, ⟨0, .start (.close 1)⟩, ⟨0, .go⟩, ⟨0, .go⟩, ⟨0, .go⟩]

theorem exportedDestroy_idle {s : DynSystem} : Along dynDriver UnloadsIdle s exportedDestroy := by
  refine along_of_mem fun s act hmem hchoice => ?_
  have hnone : ∀ act ∈ exportedDestroy, act.choice ≠ .start .unload := by
    simp [exportedDestroy, createDyn, beginDyn]
  exact absurd hchoice (hnone act hmem)

theorem exportedDestroy_rests {s : DynSystem}
    (hrun : run dynDriver (dynBoot 2) exportedDestroy = some s) :
    (∀ p, (s.locals p).resting = true) ∧ ∀ handle, (s.shared.handles handle).live = false := by
  have hok : Along dynDriver (fun s act => UnloadsIdle s act ∧ act.pid < 2) (dynBoot 2)
      exportedDestroy := exportedDestroy_idle.and (along_of_mem fun _ => by decide)
  obtain ⟨hbooks, -⟩ : DynInv 2 s :=
    run_invariant (fun _ _ _ => dynInv_step) ⟨booksInv_boot 2 2, unloadInv_boot 2⟩ hok hrun
  have hend : (run dynDriver (dynBoot 2) exportedDestroy).map (fun s =>
      ((s.shared.handles 0).live, (s.shared.handles 1).live, s.shared.nextHandle,
        (s.locals 0).resting, (s.locals 1).resting)) = some (false, false, 2, true, true) := rfl
  rw [hrun] at hend
  obtain ⟨hfile, hbuf, hnext, hfirst, hsecond⟩ := by
    simpa only [Option.map_some, Option.some.injEq, Prod.mk.injEq] using hend
  refine ⟨fun p => ?_, fun handle => ?_⟩
  · match p with
    | 0 => exact hfirst
    | 1 => exact hsecond
    | p + 2 =>
        rw [hbooks.idle (p + 2) (Nat.le_add_left 2 p)]
        rfl
  · match handle with
    | 0 => exact hfile
    | 1 => exact hbuf
    | handle + 2 =>
        refine hbooks.fresh (handle + 2) ?_
        rw [hnext]
        exact Nat.le_add_left 2 handle

theorem dyn_refcount_exact_exportedDestroy :
    ∃ s, run dynDriver (dynBoot 2) (exportedDestroy ++ [⟨1, .start .unload⟩, ⟨1, .go⟩]) = some s ∧
      s.shared.nextDev = 1 ∧ (s.shared.devs 0).ref = 0 ∧ (s.shared.devs 0).dropped = 1 ∧
        (s.shared.devs 0).released = 1 := by
  have hidle : Along dynDriver UnloadsIdle (dynBoot 2)
      (exportedDestroy ++ [⟨1, .start .unload⟩, ⟨1, .go⟩]) := by
    refine exportedDestroy_idle.append fun t ht => ⟨fun _ => exportedDestroy_rests ht, ?_⟩
    exact fun u _ => ⟨nofun, fun v _ => trivial⟩
  obtain ⟨s, hrun, hend⟩ := Option.map_eq_some_iff.mp (show
    (run dynDriver (dynBoot 2) (exportedDestroy ++ [⟨1, .start .unload⟩, ⟨1, .go⟩])).map
      (fun s => (s.shared.nextDev, (s.shared.devs 0).aborted, s.shared.unloaded)) =
        some (1, 0, true) from rfl)
  obtain ⟨hnext, haborted, hunloaded⟩ := by simpa only [Prod.mk.injEq] using hend
  obtain ⟨-, -, -, -, hgone⟩ := dyn_refcount_exact (n := 2) (by decide) hidle hrun 0
  refine ⟨s, hrun, hnext, (hgone hunloaded).resolve_left ?_⟩
  rw [haborted]
  exact Nat.zero_ne_one

end Refcount

end Kbuf
