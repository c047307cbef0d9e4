import Kbuf.Lib.Termination
import Kbuf.Mmap.Mapped

namespace Kbuf

open Interleaving

section Definitions

-- How many accesses a call of libkbuf still makes at most.
def MapWritePc.left (n : Nat) : MapWritePc → Nat
  | .loadHead => n + 3
  | .loadTail _ => n + 2
  | .copy _ n i => n - i + 1

def MapReadPc.left (n : Nat) : MapReadPc → Nat
  | .loadTail => n + 3
  | .loadHead _ => n + 2
  | .copy _ len out => len - out.length + 1

def MapResetPc.left : MapResetPc → Nat
  | .storeHead => 2
  | .storeTail => 1

def MapLocal.left : MapLocal → Nat
  | .write buf pc => pc.left buf.length
  | .read n pc => pc.left n
  | .reset pc => pc.left
  | .idle | .written _ | .got _ | .resetDone => 0

def MapRequest.most : MapRequest → Nat
  | .write buf => buf.length + 3
  | .read n => n + 3
  | .reset => 2

-- With no more bytes than the ring has, a copy from anywhere in the first of the two
-- mappings of the data ends in the second one.
def MapRequest.Fits : MapRequest → Prop
  | .write buf => buf.length ≤ KBUF_MMAP_CAPACITY
  | .read n => n ≤ KBUF_MMAP_CAPACITY
  | .reset => True

-- Inside the call for `request`, which copies no more than it was asked to. Nothing is
-- said of the indices, which may be anything.
def MapLocal.Inside (request : MapRequest) : MapLocal → Prop
  | .write buf (.copy _ n _) => request = .write buf ∧ n ≤ buf.length
  | .write buf _ => request = .write buf
  | .read n (.copy _ len out) => request = .read n ∧ len ≤ n ∧ out.length ≤ len
  | .read n _ => request = .read n
  | .reset _ => request = .reset
  | .idle | .written _ | .got _ | .resetDone => False

def MapLocal.Returned (request : MapRequest) : MapLocal → Prop
  | .written n => ∃ buf, request = .write buf ∧ n ≤ buf.length
  | .got out => ∃ n, request = .read n ∧ out.length ≤ n
  | .resetDone => request = .reset
  | .idle | .write .. | .read .. | .reset _ => False

def MapUser.Returned (request : MapRequest) (user : MapUser) : Prop :=
  user.killed = none ∧ user.here.Returned request

structure MapUser.Inside (pageSize : Nat) (request : MapRequest) (user : MapUser) : Prop where
  alive : user.killed = none
  here : user.here.Inside request
  mapped : ∃ map, user.mapping = some map ∧ map.Ok pageSize

-- The page of the next access is in the page table.
def MapUser.present (pageSize : Nat) (user : MapUser) : Bool :=
  (user.mapping.bind fun map =>
    (user.here.address pageSize map.vma).bind (map.walk pageSize)).isSome

-- An access costs a step and a page fault, unless its page is there.
def MapUser.left (pageSize : Nat) (user : MapUser) : Nat :=
  2 * user.here.left - if user.present pageSize then 1 else 0

end Definitions

section Accesses

variable {pageSize : Nat} {request : MapRequest} {here : MapLocal}

theorem MapLocal.Inside.left_pos (hin : here.Inside request) : 0 < here.left := by
  cases here with
  | write buf pc => cases pc <;> exact Nat.succ_pos _
  | read n pc => cases pc <;> exact Nat.succ_pos _
  | reset pc => cases pc <;> exact Nat.succ_pos _
  | idle | written | got | resetDone => exact hin.elim

theorem MapLocal.Inside.busy (hin : here.Inside request) : here.busy = true := by
  cases here with
  | write | read | reset => rfl
  | idle | written | got | resetDone => exact hin.elim

theorem mappedWriteStep_countdown {buf : List UInt8} {pc : MapWritePc}
    (dev : MappedDev pageSize) (addr : KernelAddr) (hin : (MapLocal.write buf pc).Inside request) :
    (mappedWriteStep buf dev addr pc).2.Returned request ∨
      (mappedWriteStep buf dev addr pc).2.Inside request ∧
        (mappedWriteStep buf dev addr pc).2.left < (MapLocal.write buf pc).left := by
  cases pc with
  | loadHead => exact .inr ⟨hin, Nat.lt_succ_self _⟩
  | loadTail head =>
      simp only [mappedWriteStep]
      generalize (BitVec.ofNat 64 KBUF_MMAP_CAPACITY - (head - dev.mem.loadWord addr)).toNat = space
      have hle : (if buf.length > space then space else buf.length) ≤ buf.length := by
        split <;> omega
      generalize (if buf.length > space then space else buf.length) = n at hle ⊢
      split
      · exact .inl ⟨buf, hin, Nat.zero_le _⟩
      · refine .inr ⟨⟨hin, hle⟩, ?_⟩
        simp only [MapLocal.left, MapWritePc.left]
        omega
  | copy head n i =>
      simp only [mappedWriteStep]
      split
      · refine .inr ⟨hin, ?_⟩
        simp only [MapLocal.left, MapWritePc.left]
        omega
      · exact .inl ⟨buf, hin⟩

theorem mappedReadStep_countdown {n : Nat} {pc : MapReadPc}
    (dev : MappedDev pageSize) (addr : KernelAddr) (hin : (MapLocal.read n pc).Inside request) :
    (mappedReadStep n dev addr pc).2.Returned request ∨
      (mappedReadStep n dev addr pc).2.Inside request ∧
        (mappedReadStep n dev addr pc).2.left < (MapLocal.read n pc).left := by
  cases pc with
  | loadTail => exact .inr ⟨hin, Nat.lt_succ_self _⟩
  | loadHead tail =>
      simp only [mappedReadStep]
      generalize (dev.mem.loadWord addr - tail).toNat = avail
      have hle : (if n > avail then avail else n) ≤ n := by
        split <;> omega
      generalize (if n > avail then avail else n) = len at hle ⊢
      split
      · exact .inl ⟨n, hin, Nat.zero_le _⟩
      · refine .inr ⟨⟨hin, hle, Nat.zero_le _⟩, ?_⟩
        simp only [MapLocal.left, MapReadPc.left, List.length_nil]
        omega
  | copy tail len out =>
      obtain ⟨hreq, hlen, hout⟩ := hin
      simp only [mappedReadStep]
      split
      · refine .inr ⟨⟨hreq, hlen, ?_⟩, ?_⟩
        · rw [List.length_append, List.length_singleton]
          assumption
        · simp only [MapLocal.left, MapReadPc.left, List.length_append, List.length_singleton]
          omega
      · exact .inl ⟨n, hreq, hout.trans hlen⟩

theorem access_countdown (dev : MappedDev pageSize) (addr : KernelAddr)
    (hin : here.Inside request) :
    (here.access dev addr).2.Returned request ∨
      (here.access dev addr).2.Inside request ∧ (here.access dev addr).2.left < here.left := by
  cases here with
  | write buf pc => exact mappedWriteStep_countdown dev addr hin
  | read n pc => exact mappedReadStep_countdown dev addr hin
  | reset pc =>
      cases pc with
      | storeHead => exact .inr ⟨hin, Nat.lt_succ_self 1⟩
      | storeTail => exact .inl hin
  | idle | written | got | resetDone => exact hin.elim

-- No index takes an access out of the mapping.
theorem MapLocal.Inside.resolves (hdvd : pageSize ∣ KBUF_MMAP_CAPACITY)
    (hpage : ctrlSize ≤ pageSize) {vma : Vma} (hmap : kbufMmap pageSize vma = .ok ())
    (hfits : request.Fits) (hin : here.Inside request) :
    ∃ addr, here.address pageSize vma = some addr ∧
      ∃ kaddr, resolve pageSize vma addr = some kaddr := by
  have hhead := resolve_ctrl hdvd hmap (Nat.lt_of_lt_of_le (by decide : ctrlHead < ctrlSize) hpage)
  have htail := resolve_ctrl hdvd hmap (Nat.lt_of_lt_of_le (by decide : ctrlTail < ctrlSize) hpage)
  have hdata (index : BitVec 64) {i : Nat} (hi : i < KBUF_MMAP_CAPACITY) :
      ∃ kaddr, resolve pageSize vma (mapData pageSize vma + (mapOffset index + i)) = some kaddr :=
    ⟨_, resolve_data hdvd hmap (by have := mapOffset_lt index; omega)⟩
  cases here with
  | write buf pc =>
      cases pc with
      | loadHead => exact ⟨_, rfl, _, hhead⟩
      | loadTail => exact ⟨_, rfl, _, htail⟩
      | copy head n i =>
          obtain ⟨rfl, hn⟩ := hin
          have hcap : buf.length ≤ KBUF_MMAP_CAPACITY := hfits
          refine ⟨_, rfl, ?_⟩
          simp only [MapWritePc.address]
          split
          · exact hdata head (by omega)
          · exact ⟨_, hhead⟩
  | read n pc =>
      cases pc with
      | loadTail => exact ⟨_, rfl, _, htail⟩
      | loadHead => exact ⟨_, rfl, _, hhead⟩
      | copy tail len out =>
          obtain ⟨rfl, hlen, -⟩ := hin
          have hcap : n ≤ KBUF_MMAP_CAPACITY := hfits
          refine ⟨_, rfl, ?_⟩
          simp only [MapReadPc.address]
          split
          · exact hdata tail (by omega)
          · exact ⟨_, htail⟩
  | reset pc =>
      cases pc with
      | storeHead => exact ⟨_, rfl, _, hhead⟩
      | storeTail => exact ⟨_, rfl, _, htail⟩
  | idle | written | got | resetDone => exact hin.elim

-- The access is not refused a second time.
theorem walk_of_fault {map map' : Mapping} {addr : Nat} (h : map.fault pageSize addr = .ok map') :
    map'.vma = map.vma ∧ (map'.walk pageSize addr).isSome = true := by
  unfold Mapping.fault at h
  split at h
  · rename_i hinside
    dsimp only at h
    split at h
    · cases h
    · cases h
      refine ⟨rfl, ?_⟩
      simp only [Mapping.walk, if_pos hinside, Function.update_self, Option.map_some,
        Option.isSome_some]
  · cases h

end Accesses

section Calls

variable {pageSize : Nat} {request : MapRequest} {user : MapUser}

theorem MapUser.left_pos (hin : user.Inside pageSize request) : 0 < user.left pageSize := by
  have hpos := hin.here.left_pos
  unfold MapUser.left
  split <;> omega

theorem mappedKbuf_go {me : Nat} {dev : MappedDev pageSize} {map : Mapping} {addr : Nat}
    (hin : user.Inside pageSize request) (hmap : user.mapping = some map)
    (haddr : user.here.address pageSize map.vma = some addr) :
    mappedKbuf pageSize me .go user dev = some (accessStep user dev map addr) := by
  simp [mappedKbuf, hin.alive, hin.here.busy, goStep, hmap, haddr]

-- A step inside a call goes through, or it puts the page in that the access is waiting for.
theorem accessStep_countdown {dev : MappedDev pageSize} {map : Mapping} {addr : Nat}
    {kaddr : KernelAddr} (hin : user.Inside pageSize request) (hmap : user.mapping = some map)
    (hok : map.Ok pageSize) (haddr : user.here.address pageSize map.vma = some addr)
    (hresolve : resolve pageSize map.vma addr = some kaddr) :
    (accessStep user dev map addr).2.Returned request ∨
      (accessStep user dev map addr).2.Inside pageSize request ∧
        (accessStep user dev map addr).2.left pageSize < user.left pageSize := by
  have hpos := hin.here.left_pos
  have hpresent : user.present pageSize = (map.walk pageSize addr).isSome := by
    simp [MapUser.present, hmap, haddr]
  cases hwalk : map.walk pageSize addr with
  | some other =>
      simp only [accessStep, hwalk]
      rcases access_countdown dev other hin.here with hret | ⟨hnext, hlt⟩
      · exact .inl ⟨hin.alive, hret⟩
      · refine .inr ⟨⟨hin.alive, hnext, map, hmap, hok⟩, ?_⟩
        simp only [MapUser.left, hpresent, hwalk, Option.isSome_some, if_true]
        omega
  | none =>
      obtain ⟨map', hfault, hok'⟩ := hok.fault hresolve
      obtain ⟨hvma, hthere⟩ := walk_of_fault hfault
      simp only [accessStep, hwalk, hfault]
      refine .inr ⟨⟨hin.alive, hin.here, map', rfl, hok'⟩, ?_⟩
      have hpresent' : MapUser.present pageSize { user with mapping := some map' } = true := by
        simp [MapUser.present, hvma, haddr, hthere]
      simp only [MapUser.left, hpresent, hpresent', hwalk, Option.isSome_none, if_true,
        Bool.false_eq_true, if_false]
      omega

variable (hdvd : pageSize ∣ KBUF_MMAP_CAPACITY) (hpage : ctrlSize ≤ pageSize)
  (hfits : request.Fits)

include hdvd hpage hfits

theorem mappedKbuf_countdown {me : Nat} {choice : MapUserChoice} {dev : MappedDev pageSize}
    {next : MappedDev pageSize × MapUser} (hin : user.Inside pageSize request)
    (h : mappedKbuf pageSize me choice user dev = some next) :
    next.2.Returned request ∨
      next.2.Inside pageSize request ∧ next.2.left pageSize < user.left pageSize := by
  obtain ⟨map, hmap, hok⟩ := hin.mapped
  obtain ⟨addr, haddr, kaddr, hresolve⟩ := hin.here.resolves hdvd hpage hok.accepted hfits
  cases choice with
  | go =>
      rw [mappedKbuf_go hin hmap haddr] at h
      obtain rfl := Option.some.inj h
      exact accessStep_countdown hin hmap hok haddr hresolve
  | mapOpen | mapClose | start => simp [mappedKbuf, hin.alive, hin.here.busy] at h

theorem mappedKbuf_enabled {me : Nat} {dev : MappedDev pageSize}
    (hin : user.Inside pageSize request) :
    (mappedKbuf pageSize me .go user dev).isSome = true := by
  obtain ⟨map, hmap, hok⟩ := hin.mapped
  obtain ⟨addr, haddr, -⟩ := hin.here.resolves hdvd hpage hok.accepted hfits
  rw [mappedKbuf_go hin hmap haddr]
  rfl

-- The calls of libkbuf are wait-free: two steps at most for each access, one of them
-- for its page fault. Neither the other processes nor what they leave in the control page
-- can keep a call from returning, make it leave the mapping or return more than it was
-- asked for.
theorem map_wait_free {s t : MappedSystem pageSize} {acts : List (Act MapUserChoice)} (p : Nat)
    {map : Mapping} (hmap : map.Ok pageSize)
    (henter : s.locals p = ⟨some map, request.enter, none⟩)
    (hrun : run (mappedKbuf pageSize) s acts = some t) :
    ReturnsWithin (mappedKbuf pageSize) .go (MapUser.Returned request) p (2 * request.most)
      s acts t := by
  have hinside : (s.locals p).Inside pageSize request := by
    rw [henter]
    exact ⟨rfl, by cases request <;> rfl, map, rfl, hmap⟩
  have hleft : (s.locals p).left pageSize ≤ 2 * request.most := by
    have hmost : request.enter.left = request.most := by cases request <;> rfl
    rw [henter, MapUser.left, hmost]
    exact Nat.sub_le _ _
  refine ReturnsWithin.mono ?_ hleft
  refine returnsWithin_of_countdown (MapUser.Inside pageSize request) (MapUser.left pageSize)
    ?_ ?_ ?_ hinside hrun
  · exact fun _ => MapUser.left_pos
  · exact fun _ _ _ _ _ => mappedKbuf_countdown hdvd hpage hfits
  · exact fun _ _ _ => mappedKbuf_enabled hdvd hpage hfits

end Calls

-- Two bytes through a fresh mapping, with a reset by another process after the first load.
def twoBytes : MapRequest := .write [7, 8]

def enterFresh : List (Act MapUserChoice) := [⟨0, .mapOpen 0x7000⟩, ⟨0, .start twoBytes⟩]

def besideReset : List (Act MapUserChoice) :=
  List.replicate 2 ⟨0, .go⟩ ++ [⟨1, .mapOpen 0x40000⟩, ⟨1, .start .reset⟩] ++
    List.replicate 3 ⟨1, .go⟩ ++ List.replicate 5 ⟨0, .go⟩

theorem map_wait_free_besideReset :
    ∃ s t, run (mappedKbuf 4096) (mappedBoot (by decide)) enterFresh = some s ∧
      run (mappedKbuf 4096) s besideReset = some t ∧ (t.locals 0).here = .written 2 ∧
      ReturnsWithin (mappedKbuf 4096) .go (MapUser.Returned twoBytes) 0 10 s besideReset t := by
  obtain ⟨s, hs, henter⟩ := Option.map_eq_some_iff.mp
    (show (run (mappedKbuf 4096) (mappedBoot (by decide)) enterFresh).map (fun s => s.locals 0) =
      some ⟨some ⟨mapOpenVma 4096 0x7000, fun _ => none⟩, twoBytes.enter, none⟩ from rfl)
  obtain ⟨t, ht, hwritten⟩ := Option.map_eq_some_iff.mp
    (show (run (mappedKbuf 4096) (mappedBoot (by decide)) (enterFresh ++ besideReset)).map
      (fun t => (t.locals 0).here) = some (.written 2) by decide +kernel)
  obtain ⟨m, hm, hrun⟩ := run_append_eq_some ht
  obtain rfl := Option.some.inj (hs.symm.trans hm)
  have hfits : twoBytes.Fits := (by decide : 2 ≤ KBUF_MMAP_CAPACITY)
  exact ⟨s, t, hs, hrun, hwritten,
    map_wait_free (by decide) (by decide) hfits 0 (mapOpenVma_ok 4096 0x7000) henter hrun⟩

end Kbuf
