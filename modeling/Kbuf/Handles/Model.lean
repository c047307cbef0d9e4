import Kbuf.Lib.Custody
import Kbuf.Lib.Interleaving
import Kbuf.Mmap.Pages

namespace Kbuf

open Custody Interleaving

section Objects

-- struct kbuf_map. Address 0 is the null pointer.
structure KbufMap where
  base : Nat
  ctrl : Nat
  data : Nat
  cap : Nat
  maplen : Nat
  deriving DecidableEq

-- An object of one of the three classes. A Device has a unique_fd as its only member, and
-- the moves and the destructor that this gives it.
inductive RaiiObject where
  | uniqueFd (fd : Int)
  | device (fd : Int)
  | mappedRing (m : KbufMap)
  deriving DecidableEq

def RaiiObject.sameClass : RaiiObject → RaiiObject → Bool
  | .uniqueFd _, .uniqueFd _ => true
  | .device _, .device _ => true
  | .mappedRing _, .mappedRing _ => true
  | _, _ => false

-- What a process has open: a descriptor by its number, a mapping by its address and length.
inductive Key where
  | fd (n : Nat)
  | map (base len : Nat)
  deriving DecidableEq

-- A process with its objects, by name. `obtained` and `givenUp` record what the objects
-- have owned and what release() has let go of. No step reads them.
structure Process where
  objects : Nat → Option RaiiObject
  table : Table Key
  obtained : List (Instance Key)
  givenUp : List (Instance Key)

def Process.put (s : Process) (o : Nat) (value : Option RaiiObject) : Process :=
  { s with objects := Function.update s.objects o value }

-- Some object owns the key from now on.
def Process.record (s : Process) (k : Key) : Process :=
  { s with
    obtained := s.table.instances k ++ s.obtained
    givenUp := s.givenUp.filter (· ∉ s.table.instances k) }

def Process.recordFd (s : Process) (fd : Int) : Process :=
  if 0 ≤ fd then s.record (.fd fd.toNat) else s

end Objects

section Calls

-- ::close
def Process.close (s : Process) (fd : Int) : Process :=
  { s with table := s.table.close (.fd fd.toNat) }

def Process.munmap (s : Process) (base len : Nat) : Process :=
  { s with table := s.table.close (.map base len) }

-- unique_fd::reset: the process and the new `fd_`
def uniqueFdReset (s : Process) (fd_ fd : Int) : Process × Int :=
  (if 0 ≤ fd_ then s.close fd_ else s, fd)

def kbufMapClose (s : Process) (m : KbufMap) : Process × KbufMap :=
  (if m.base ≠ 0 then s.munmap m.base m.maplen else s, { m with base := 0 })

-- kbuf_map_open, where mmap returns an address or MAP_FAILED
def kbufMapOpen (pg : Nat) (s : Process) (base : Option Nat) : Process × Option KbufMap :=
  let cap := KBUF_MMAP_CAPACITY
  let len := pg + 2 * cap
  match base with
  | none => (s, none)
  | some base =>
      (({ s with table := s.table.insert (.map base len) }).record (.map base len),
        some ⟨base, base, base + pg, cap, len⟩)

-- ::open or the ioctl that exports, with the descriptor it returns
def Process.opened (s : Process) (n : Nat) : Process :=
  ({ s with table := s.table.insert (.fd n) }).recordFd n

-- What a destructor does, and a move assignment before it takes anything over.
def RaiiObject.close (s : Process) : RaiiObject → Process × RaiiObject
  | .uniqueFd fd => Prod.map id .uniqueFd (uniqueFdReset s fd (-1))
  | .device fd => Prod.map id .device (uniqueFdReset s fd (-1))
  | .mappedRing m => Prod.map id .mappedRing (kbufMapClose s m)

-- What a move leaves behind: std::exchange(o.fd_, -1), or o.m_.base = nullptr.
def RaiiObject.movedFrom : RaiiObject → RaiiObject
  | .uniqueFd _ => .uniqueFd (-1)
  | .device _ => .device (-1)
  | .mappedRing m => .mappedRing { m with base := 0 }

end Calls

section Programs

-- One operation of a program, with the answer of the kernel where it asks for something.
-- A descriptor may also be opened and closed by other code.
inductive Operation where
  | rawOpen (n : Nat)
  | rawClose (n : Nat)
  | uniqueFd (o : Nat) (fd : Int)
  | device (o : Nat) (answer : Option Nat)
  | exportDmabuf (o dev : Nat) (answer : Option Nat)
  | mappedRing (o : Nat) (answer : Option Nat)
  | moveConstruct (o src : Nat)
  | moveAssign (dst src : Nat)
  | release (o : Nat)
  | reset (o : Nat) (fd : Int)
  | destroy (o : Nat)

def Process.moveConstruct (s : Process) (o src : Nat) (value : RaiiObject) : Process :=
  (s.put o (some value)).put src (some value.movedFrom)

-- `if (this != &o)`
def Process.moveAssign (s : Process) (dst src : Nat) (old value : RaiiObject) : Process :=
  if dst = src then s
  else
    let (s, emptied) := old.close s
    (s.put dst (some emptied)).moveConstruct dst src value

-- unique_fd::release
def Process.release (s : Process) (o : Nat) (fd : Int) : Process :=
  let givenUp := if 0 ≤ fd then s.table.instances (.fd fd.toNat) else []
  ({ s with givenUp := givenUp ++ s.givenUp }).put o (some (.uniqueFd (-1)))

-- A constructor that throws leaves no object. The one of Device has a member by then, whose
-- destructor runs.
def Process.exec (pg : Nat) (s : Process) : Operation → Option Process
  | .rawOpen n => some { s with table := s.table.insert (.fd n) }
  | .rawClose n => some (s.close n)
  | .uniqueFd o fd =>
      if s.objects o = none then some ((s.recordFd fd).put o (some (.uniqueFd fd))) else none
  | .device o answer =>
      if s.objects o = none then
        match answer with
        | none => some (uniqueFdReset s (-1) (-1)).1
        | some n => some ((s.opened n).put o (some (.device n)))
      else none
  | .exportDmabuf o dev answer =>
      match s.objects o, s.objects dev, answer with
      | none, some (.device _), none => some s
      | none, some (.device _), some n => some ((s.opened n).put o (some (.uniqueFd n)))
      | _, _, _ => none
  | .mappedRing o answer =>
      if s.objects o = none then
        match kbufMapOpen pg s answer with
        | (s, none) => some s
        | (s, some m) => some (s.put o (some (.mappedRing m)))
      else none
  | .moveConstruct o src =>
      match s.objects o, s.objects src with
      | none, some value => some (s.moveConstruct o src value)
      | _, _ => none
  | .moveAssign dst src =>
      match s.objects dst, s.objects src with
      | some old, some value =>
          if old.sameClass value then some (s.moveAssign dst src old value) else none
      | _, _ => none
  | .release o =>
      match s.objects o with
      | some (.uniqueFd fd) => some (s.release o fd)
      | _ => none
  | .reset o fd =>
      match s.objects o with
      | some (.uniqueFd old) =>
          let (s, fd_) := uniqueFdReset s old fd
          some ((s.recordFd fd).put o (some (.uniqueFd fd_)))
      | _ => none
  | .destroy o =>
      match s.objects o with
      | some value => some ((value.close s).1.put o none)
      | none => none

-- What the operations can do. Where the kernel refuses, a constructor or an export throws
-- and nothing changes.
inductive Executes (pg : Nat) (s : Process) : Operation → Process → Prop
  | rawOpen {n : Nat} : Executes pg s (.rawOpen n) { s with table := s.table.insert (.fd n) }
  | rawClose {n : Nat} : Executes pg s (.rawClose n) (s.close n)
  | uniqueFd {o : Nat} {fd : Int} (hdead : s.objects o = none) :
      Executes pg s (.uniqueFd o fd) ((s.recordFd fd).put o (some (.uniqueFd fd)))
  | deviceThrows {o : Nat} : Executes pg s (.device o none) s
  | device {o n : Nat} (hdead : s.objects o = none) :
      Executes pg s (.device o (some n)) ((s.opened n).put o (some (.device n)))
  | exportThrows {o dev : Nat} : Executes pg s (.exportDmabuf o dev none) s
  | exportDmabuf {o dev n : Nat} (hdead : s.objects o = none) :
      Executes pg s (.exportDmabuf o dev (some n)) ((s.opened n).put o (some (.uniqueFd n)))
  | ringThrows {o : Nat} : Executes pg s (.mappedRing o none) s
  | mappedRing {o base : Nat} (hdead : s.objects o = none) :
      Executes pg s (.mappedRing o (some base))
        ((({ s with table := s.table.insert (.map base (pg + 2 * KBUF_MMAP_CAPACITY)) }).record
          (.map base (pg + 2 * KBUF_MMAP_CAPACITY))).put o (some (.mappedRing
            ⟨base, base, base + pg, KBUF_MMAP_CAPACITY, pg + 2 * KBUF_MMAP_CAPACITY⟩)))
  | moveConstruct {o src : Nat} {value : RaiiObject} (hdead : s.objects o = none)
      (hsrc : s.objects src = some value) :
      Executes pg s (.moveConstruct o src) (s.moveConstruct o src value)
  | moveAssign {dst src : Nat} {old value : RaiiObject} (hdst : s.objects dst = some old)
      (hsrc : s.objects src = some value) :
      Executes pg s (.moveAssign dst src) (s.moveAssign dst src old value)
  | release {o : Nat} {fd : Int} (hobject : s.objects o = some (.uniqueFd fd)) :
      Executes pg s (.release o) (s.release o fd)
  | reset {o : Nat} {old fd : Int} (hobject : s.objects o = some (.uniqueFd old)) :
      Executes pg s (.reset o fd)
        (((uniqueFdReset s old fd).1.recordFd fd).put o (some (.uniqueFd fd)))
  | destroy {o : Nat} {value : RaiiObject} (hobject : s.objects o = some value) :
      Executes pg s (.destroy o) ((value.close s).1.put o none)

theorem exec_executes {pg : Nat} {s t : Process} {operation : Operation}
    (h : s.exec pg operation = some t) : Executes pg s operation t := by
  cases operation with
  | rawOpen n =>
      obtain rfl := Option.some.inj h
      exact .rawOpen
  | rawClose n =>
      obtain rfl := Option.some.inj h
      exact .rawClose
  | uniqueFd o fd =>
      obtain ⟨hdead, h⟩ := Option.ite_none_right_eq_some.mp h
      obtain rfl := Option.some.inj h
      exact .uniqueFd hdead
  | device o answer =>
      obtain ⟨hdead, h⟩ := Option.ite_none_right_eq_some.mp h
      cases answer with
      | none =>
          obtain rfl := Option.some.inj h
          exact .deviceThrows
      | some n =>
          obtain rfl := Option.some.inj h
          exact .device hdead
  | exportDmabuf o dev answer =>
      simp only [Process.exec] at h
      split at h
      · obtain rfl := Option.some.inj h
        exact .exportThrows
      · obtain rfl := Option.some.inj h
        exact .exportDmabuf ‹_›
      · cases h
  | mappedRing o answer =>
      obtain ⟨hdead, h⟩ := Option.ite_none_right_eq_some.mp h
      cases answer with
      | none =>
          obtain rfl := Option.some.inj h
          exact .ringThrows
      | some base =>
          obtain rfl := Option.some.inj h
          exact .mappedRing hdead
  | moveConstruct o src =>
      simp only [Process.exec] at h
      split at h
      · obtain rfl := Option.some.inj h
        exact .moveConstruct ‹_› ‹_›
      · cases h
  | moveAssign dst src =>
      simp only [Process.exec] at h
      split at h
      · obtain ⟨-, h⟩ := Option.ite_none_right_eq_some.mp h
        obtain rfl := Option.some.inj h
        exact .moveAssign ‹_› ‹_›
      · cases h
  | release o =>
      simp only [Process.exec] at h
      split at h
      · obtain rfl := Option.some.inj h
        exact .release ‹_›
      · cases h
  | reset o fd =>
      simp only [Process.exec] at h
      split at h
      · obtain rfl := Option.some.inj h
        exact .reset ‹_›
      · cases h
  | destroy o =>
      simp only [Process.exec] at h
      split at h
      · obtain rfl := Option.some.inj h
        exact .destroy ‹_›
      · cases h

-- A program runs its operations one after the other, in whatever threads.
def program (pg : Nat) : Program Process Unit Operation := fun _ operation _ s =>
  (s.exec pg operation).map (·, ())

def Process.start : State Process Unit where
  shared := ⟨fun _ => none, .empty, [], []⟩
  locals := fun _ => ()

end Programs

end Kbuf
