import Kbuf.Dyn.Identity

namespace Kbuf

open Interleaving Tally

section Invariant

-- Every allocated id has one owner, an instance or a call. What is registered for
-- a device is what the list or the call that has it in hand says.
structure MinorInv (n : Nat) (s : DynSystem) : Prop where
  ids : ∀ off, s.shared.keeping off + tally (fun here => here.registered.keeps off) s.locals n =
    s.shared.ida.count off
  once : ∀ off, s.shared.ida.count off ≤ 1
  range : ∀ off ∈ s.shared.ida, off < KBUF_DYN_MAX
  cdevs : ∀ ptr, (s.shared.devs ptr).cdev.toNat =
    s.shared.list.count ptr + tally (fun here => here.registered.cdevs ptr) s.locals n
  nodes : ∀ ptr, (s.shared.devs ptr).node.toNat =
    s.shared.list.count ptr + tally (fun here => here.registered.nodes ptr) s.locals n

structure InstanceInv (n : Nat) (s : DynSystem) : Prop where
  books : BooksInv n s
  minors : MinorInv n s

theorem minorInv_boot (ndevices n : Nat) : MinorInv n (dynBoot ndevices) where
  ids off := by
    rw [tally_boot rfl]
    rfl
  once _ := Nat.zero_le 1
  range _ h := nomatch h
  cdevs ptr := by
    rw [tally_boot rfl]
    rfl
  nodes ptr := by
    rw [tally_boot rfl]
    rfl

theorem instanceInv_boot (ndevices n : Nat) : InstanceInv n (dynBoot ndevices) :=
  ⟨booksInv_boot ndevices n, minorInv_boot ndevices n⟩

end Invariant

section Kept

variable {n : Nat} {s : DynSystem} {ptr : Nat}

-- A device that has a reference, and whose creation has not failed, has its id.
theorem BooksInv.kept_of_ref (h : BooksInv n s) (hpos : 0 < (s.shared.devs ptr).ref)
    (haborted : (s.shared.devs ptr).aborted = 0) : (s.shared.devs ptr).keepsMinor := by
  have hreleases := h.releases ptr
  exact ⟨by omega, haborted⟩

theorem BooksInv.kept_of_found (h : BooksInv n s)
    (hpos : 0 < s.shared.list.count ptr + tally (DynLocal.token ptr) s.locals n) :
    (s.shared.devs ptr).keepsMinor := by
  have htokens := h.tokens ptr
  exact h.kept_of_ref (h.ref_pos (by omega)) (by omega)

theorem BooksInv.kept_of_listed (h : BooksInv n s) (hmem : ptr ∈ s.shared.list) :
    (s.shared.devs ptr).keepsMinor := by
  have hcount : 0 < s.shared.list.count ptr := List.count_pos_iff.mpr hmem
  exact h.kept_of_found (by omega)

-- A destroyed device that is still open or exported has its id, too.
theorem BooksInv.kept_of_bound (h : BooksInv n s)
    (hpos : 0 < s.shared.bound ptr + tally (DynLocal.holds ptr) s.locals n) :
    (s.shared.devs ptr).keepsMinor := by
  have haborted : (s.shared.devs ptr).aborted = 0 := by
    by_contra hne
    have hhidden := h.hidden ptr (by omega)
    omega
  exact h.kept_of_ref (h.ref_pos (by omega)) haborted

theorem BooksInv.kept_of_live (h : BooksInv n s) {handle : Nat}
    (hlive : (s.shared.handles handle).live = true)
    (hdev : (s.shared.handles handle).dev = .dyn ptr) : (s.shared.devs ptr).keepsMinor := by
  have hpos := h.bound_pos hlive hdev
  exact h.kept_of_bound (by omega)

theorem BooksInv.kept_of_releasing (h : BooksInv n s)
    (hpos : 0 < tally (DynLocal.releasing ptr) s.locals n) : (s.shared.devs ptr).keepsMinor := by
  have hrefs := h.refs ptr
  have htokens := h.tokens ptr
  have hreleases := h.releases ptr
  exact ⟨by omega, by omega⟩

theorem BooksInv.lt_of_kept (h : BooksInv n s) (hkeeps : (s.shared.devs ptr).keepsMinor) :
    ptr < s.shared.nextDev := by
  by_contra hlt
  rw [h.vacant ptr (Nat.le_of_not_lt hlt)] at hkeeps
  exact absurd hkeeps.1 Nat.one_ne_zero

end Kept

section Unique

variable {n : Nat} {s : DynSystem} {ptr other : Nat}

theorem InstanceInv.minor_mem (h : InstanceInv n s) (hkeeps : (s.shared.devs ptr).keepsMinor) :
    (s.shared.devs ptr).minorOff ∈ s.shared.ida := by
  have hle : (s.shared.devs ptr).keeps (s.shared.devs ptr).minorOff ≤
      s.shared.keeping (s.shared.devs ptr).minorOff :=
    le_tally _ s.shared.devs (h.books.lt_of_kept hkeeps)
  have hids := h.minors.ids (s.shared.devs ptr).minorOff
  rw [keeps_of_keepsMinor hkeeps] at hle
  exact List.count_pos_iff.mp (by omega)

theorem InstanceInv.minor_lt (h : InstanceInv n s) (hkeeps : (s.shared.devs ptr).keepsMinor) :
    (s.shared.devs ptr).minorOff < KBUF_DYN_MAX :=
  h.minors.range _ (h.minor_mem hkeeps)

-- Two instances that have an id each have different ones.
theorem InstanceInv.minor_inj (h : InstanceInv n s) (hkeeps : (s.shared.devs ptr).keepsMinor)
    (hother : (s.shared.devs other).keepsMinor)
    (heq : (s.shared.devs ptr).minorOff = (s.shared.devs other).minorOff) : ptr = other := by
  by_contra hne
  have hsum : (s.shared.devs ptr).keeps (s.shared.devs ptr).minorOff +
      (s.shared.devs other).keeps (s.shared.devs ptr).minorOff ≤
        s.shared.keeping (s.shared.devs ptr).minorOff :=
    add_le_tally _ s.shared.devs (h.books.lt_of_kept hkeeps) (h.books.lt_of_kept hother) hne
  have hself := keeps_of_keepsMinor hkeeps
  have hthere := keeps_of_keepsMinor hother
  rw [← heq] at hthere
  have hids := h.minors.ids (s.shared.devs ptr).minorOff
  have honce := h.minors.once (s.shared.devs ptr).minorOff
  omega

-- A device with a cdev or a node is listed, or a call is working on it.
theorem InstanceInv.kept_of_cdev (h : InstanceInv n s)
    (hpos : 0 < (s.shared.devs ptr).cdev.toNat + (s.shared.devs ptr).node.toNat) :
    (s.shared.devs ptr).keepsMinor := by
  have hcdevs := h.minors.cdevs ptr
  have hnodes := h.minors.nodes ptr
  have hle : tally (fun here => here.registered.cdevs ptr) s.locals n ≤
      tally (DynLocal.token ptr) s.locals n :=
    Finset.sum_le_sum fun p _ => cdevs_le_token ptr (s.locals p)
  have hle' : tally (fun here => here.registered.nodes ptr) s.locals n ≤
      tally (fun here => here.registered.cdevs ptr) s.locals n :=
    Finset.sum_le_sum fun p _ => nodes_le_cdevs ptr (s.locals p).registered
  exact h.books.kept_of_found (by omega)

end Unique

section Steps

variable {n : Nat} {s t : DynSystem}

theorem InstanceInv.ready (h : InstanceInv n s) {p : Nat} (hp : p < n) :
    MinorReady s.shared (s.locals p) where
  vacant := h.books.vacant
  kept ptr hpos := by
    have htoken := le_tally (DynLocal.token ptr) s.locals hp
    have hreleasing := le_tally (DynLocal.releasing ptr) s.locals hp
    by_cases hzero : (s.locals p).token ptr = 0
    · exact h.books.kept_of_releasing (by omega)
    · exact h.books.kept_of_found (by omega)
  cdev ptr hpos := by
    have htokens := h.books.tokens ptr
    have hle := le_tally (DynLocal.token ptr) s.locals hp
    have hentry := tally_eq_entry (DynLocal.token ptr) s.locals (cdevs_le_token ptr) hp (by omega)
    have hcdevs := h.minors.cdevs ptr
    omega
  node ptr hpos := by
    have htokens := h.books.tokens ptr
    have hle := le_tally (DynLocal.token ptr) s.locals hp
    have hentry := tally_eq_entry (DynLocal.token ptr) s.locals
      (fun here => (nodes_le_cdevs ptr here.registered).trans (cdevs_le_token ptr here)) hp
      (by omega)
    have hnodes := h.minors.nodes ptr
    omega
  held off hreg := by
    have hle := le_tally (fun here => here.registered.keeps off) s.locals hp
    have hone : (s.locals p).registered.keeps off = 1 := by
      rw [hreg]
      exact if_pos rfl
    have hids := h.minors.ids off
    exact List.count_pos_iff.mp (by omega)
  taken ptr hkeeps := h.minor_mem hkeeps

theorem minorInv_step (h : InstanceInv n s) {act : Act DynChoice} (hpid : act.pid < n)
    (hstep : step dynDriver s act = some t) : MinorInv n t := by
  obtain ⟨r', next, hmove, rfl⟩ := dyn_step_move hstep
  have hminors := hmove.minors (h.ready hpid)
  refine ⟨fun off => ?_, fun off => ?_, fun off hmem => ?_, fun ptr => ?_, fun ptr => ?_⟩
  · have hput := tally_put s (fun here => here.registered.keeps off) hpid r' next
    have hids := hminors.ids off
    have hbefore := h.minors.ids off
    simp only [State.put_shared]
    omega
  · have hfresh := hminors.fresh off
    have hbefore := h.minors.once off
    simp only [State.put_shared]
    omega
  · have hcount : 0 < r'.ida.count off := List.count_pos_iff.mpr hmem
    rcases hminors.fresh off with hle | ⟨hlt, -⟩
    · exact h.minors.range off (List.count_pos_iff.mp (by omega))
    · exact hlt
  · have hput := tally_put s (fun here => here.registered.cdevs ptr) hpid r' next
    have hcdevs := hminors.cdevs ptr
    have hbefore := h.minors.cdevs ptr
    simp only [State.put_shared]
    omega
  · have hput := tally_put s (fun here => here.registered.nodes ptr) hpid r' next
    have hnodes := hminors.nodes ptr
    have hbefore := h.minors.nodes ptr
    simp only [State.put_shared]
    omega

theorem instanceInv_step {act : Act DynChoice} (h : InstanceInv n s) (hpid : act.pid < n)
    (hstep : step dynDriver s act = some t) : InstanceInv n t :=
  ⟨booksInv_step h.books hpid hstep, minorInv_step h hpid hstep⟩

theorem instanceInv_run {ndevices : Nat} {acts : List (Act DynChoice)}
    (hpids : ∀ act ∈ acts, act.pid < n) (hrun : run dynDriver (dynBoot ndevices) acts = some s) :
    InstanceInv n s :=
  run_invariant (fun _ _ _ => instanceInv_step) (instanceInv_boot ndevices n)
    (along_of_mem fun _ act hmem => hpids act hmem) hrun

end Steps

end Kbuf
