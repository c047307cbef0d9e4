import Kbuf.Calls
import Kbuf.Lib.UserSpace
import Kbuf.Lib.Words

namespace Kbuf

open UserSpace

section Errors

def MAX_ERRNO : Nat := 4095

-- An error as it crosses the system call boundary.
abbrev ErrCode := { code : Nat // 0 < code ∧ code ≤ MAX_ERRNO }

def Errno.code : Errno → ErrCode
  | .ENOENT => ⟨2, by decide⟩
  | .EBADF => ⟨9, by decide⟩
  | .EAGAIN => ⟨11, by decide⟩
  | .ENOMEM => ⟨12, by decide⟩
  | .EFAULT => ⟨14, by decide⟩
  | .EBUSY => ⟨16, by decide⟩
  | .ENODEV => ⟨19, by decide⟩
  | .EINVAL => ⟨22, by decide⟩
  | .ENOSPC => ⟨28, by decide⟩
  | .ERESTARTSYS => ⟨512, by decide⟩

def EIO : ErrCode := ⟨5, by decide⟩
def EMFILE : ErrCode := ⟨24, by decide⟩
def ENOTTY : ErrCode := ⟨25, by decide⟩

-- What a system call leaves in its return register.
def retOf : Except ErrCode Nat → Int
  | .error e => -(e.val : Int)
  | .ok n => n

-- The C library turns a small negative value into errno.
def libcOf (ret : Int) : Except Nat Nat :=
  if -(MAX_ERRNO : Int) ≤ ret ∧ ret < 0 then .error (-ret).toNat else .ok ret.toNat

theorem libcOf_error (e : ErrCode) : libcOf (retOf (.error e)) = .error e.val := by
  obtain ⟨code, hpos, hle⟩ := e
  have hsmall : -(MAX_ERRNO : Int) ≤ -(code : Int) ∧ -(code : Int) < 0 := by omega
  refine (if_pos hsmall).trans ?_
  rw [retOf, Int.neg_neg, Int.toNat_natCast]

theorem libcOf_ok (n : Nat) : libcOf (retOf (.ok n)) = .ok n := by
  have hlarge : ¬(-(MAX_ERRNO : Int) ≤ (n : Int) ∧ (n : Int) < 0) := by omega
  refine (if_neg hlarge).trans ?_
  rw [retOf, Int.toNat_natCast]

end Errors

section Commands

def IOC_NONE : Nat := 0
def IOC_WRITE : Nat := 1
def IOC_READ : Nat := 2

-- _IOC: the direction in the two highest bits, then the size of the argument, the type and
-- the number
def ioc (dir type nr size : Nat) : BitVec 32 :=
  BitVec.ofNat 32 dir <<< 30 ||| BitVec.ofNat 32 size <<< 16 ||| BitVec.ofNat 32 type <<< 8 |||
    BitVec.ofNat 32 nr

def iocDir (cmd : BitVec 32) : Nat := (cmd >>> 30 &&& 0x3).toNat
def iocSize (cmd : BitVec 32) : Nat := (cmd >>> 16 &&& 0x3fff).toNat
def iocType (cmd : BitVec 32) : Nat := (cmd >>> 8 &&& 0xff).toNat
def iocNr (cmd : BitVec 32) : Nat := (cmd &&& 0xff).toNat

-- The widths of the members of struct kbuf_resize and struct kbuf_stats. Each is aligned to
-- its width where it stands, so there is no padding.
def resizeLayout : List Nat := [4, 4]
def statsLayout : List Nat := [8, 8, 8, 8, 8, 8, 4, 4, 4, 4]

def sizeofInt : Nat := 4

def KBUF_IOC_MAGIC : Nat := 'k'.toNat
def KBUF_IOC_MAXNR : Nat := 6

def KBUF_IOCRESIZE : BitVec 32 := ioc IOC_WRITE KBUF_IOC_MAGIC 1 resizeLayout.sum
def KBUF_IOCGSTATS : BitVec 32 := ioc IOC_READ KBUF_IOC_MAGIC 2 statsLayout.sum
def KBUF_IOCRESET : BitVec 32 := ioc IOC_NONE KBUF_IOC_MAGIC 3 0
def KBUF_IOCSMODE : BitVec 32 := ioc IOC_WRITE KBUF_IOC_MAGIC 4 sizeofInt
def KBUF_IOCEXPORT : BitVec 32 := ioc IOC_READ KBUF_IOC_MAGIC 5 sizeofInt
def KBUF_IOCIMPORT : BitVec 32 := ioc IOC_WRITE KBUF_IOC_MAGIC 6 sizeofInt

end Commands

section Layout

def Stats.members (st : Stats) : List Nat :=
  [st.bytesProduced.toNat, st.bytesConsumed.toNat, st.msgsProduced.toNat, st.msgsConsumed.toNat,
    st.readSleeps.toNat, st.writeSleeps.toNat, st.numBuffers, st.bufferSize, st.curCount,
    st.peakCount]

def Stats.ofMembers (values : List Nat) : Stats where
  bytesProduced := BitVec.ofNat 64 (values.getD 0 0)
  bytesConsumed := BitVec.ofNat 64 (values.getD 1 0)
  msgsProduced := BitVec.ofNat 64 (values.getD 2 0)
  msgsConsumed := BitVec.ofNat 64 (values.getD 3 0)
  readSleeps := BitVec.ofNat 64 (values.getD 4 0)
  writeSleeps := BitVec.ofNat 64 (values.getD 5 0)
  numBuffers := values.getD 6 0
  bufferSize := values.getD 7 0
  curCount := values.getD 8 0
  peakCount := values.getD 9 0

theorem Stats.ofMembers_members (st : Stats) : Stats.ofMembers st.members = st := by
  simp [Stats.ofMembers, Stats.members]

-- Each of the 32-bit members fits its C type. The 64-bit members fit theirs by construction.
structure Stats.Narrow (st : Stats) : Prop where
  numBuffers : st.numBuffers < 2 ^ 32
  bufferSize : st.bufferSize < 2 ^ 32
  curCount : st.curCount < 2 ^ 32
  peakCount : st.peakCount < 2 ^ 32

theorem Stats.Narrow.fits {st : Stats} (h : st.Narrow) : Words.Fits statsLayout st.members :=
  ⟨st.bytesProduced.isLt, st.bytesConsumed.isLt, st.msgsProduced.isLt, st.msgsConsumed.isLt,
    st.readSleeps.isLt, st.writeSleeps.isLt, h.numBuffers, h.bufferSize, h.curCount, h.peakCount,
    trivial⟩

-- The structure in the memory of the process, as the kernel writes it and the program reads it.
def Stats.bytes (st : Stats) : List UInt8 := Words.pack statsLayout st.members

def Stats.ofBytes (bytes : List UInt8) : Stats := Stats.ofMembers (Words.unpack statsLayout bytes)

theorem Stats.Narrow.ofBytes_bytes {st : Stats} (h : st.Narrow) : Stats.ofBytes st.bytes = st := by
  rw [Stats.ofBytes, Stats.bytes, Words.unpack_pack h.fits, Stats.ofMembers_members]

theorem Stats.length_bytes (st : Stats) : st.bytes.length = statsLayout.sum := Words.length_pack rfl

end Layout

section UserAccess

-- The bytes of an int.
def intBytes (value : BitVec 32) : List UInt8 := Words.toBytes sizeofInt value.toNat

def ofIntBytes (bytes : List UInt8) : BitVec 32 := BitVec.ofNat 32 (Words.ofBytes bytes)

theorem ofIntBytes_intBytes (value : BitVec 32) : ofIntBytes (intBytes value) = value := by
  have hlow : value.toNat % 256 ^ sizeofInt = value.toNat := Nat.mod_eq_of_lt value.isLt
  rw [ofIntBytes, intBytes, Words.ofBytes_toBytes, hlow, BitVec.ofNat_toNat, BitVec.setWidth_eq]

theorem length_intBytes (value : BitVec 32) : (intBytes value).length = sizeofInt :=
  Words.length_toBytes ..

-- get_user on an int
def getUser (mem : Space) (addr : Nat) : Option (BitVec 32) :=
  let (bytes, left) := mem.copyIn addr sizeofInt
  if left ≠ 0 then none else some (ofIntBytes bytes)

-- put_user of an int, which is one access and stores all of it or nothing
def putUser (mem : Space) (value : BitVec 32) (addr : Nat) : Option Space :=
  let (after, left) := mem.copyOut addr (intBytes value)
  if left ≠ 0 then none else some after

theorem getUser_poke {mem : Space} {addr : Nat} (h : Allowed mem.readable addr sizeofInt)
    (value : BitVec 32) : getUser (mem.poke addr (intBytes value)) addr = some value := by
  rw [getUser, copyIn_poke h (length_intBytes value)]
  exact congrArg some (ofIntBytes_intBytes value)

theorem putUser_of_allowed {mem : Space} {addr : Nat} (h : Allowed mem.writable addr sizeofInt)
    (value : BitVec 32) : putUser mem value addr = some (mem.poke addr (intBytes value)) := by
  rw [putUser, copyOut_of_allowed (by rwa [length_intBytes])]
  rfl

theorem putUser_rights {mem after : Space} {addr : Nat} {value : BitVec 32}
    (h : putUser mem value addr = some after) :
    after.readable = mem.readable ∧ after.writable = mem.writable := by
  obtain ⟨-, h⟩ := Option.ite_none_left_eq_some.mp h
  rw [← Option.some.inj h]
  exact ⟨rfl, rfl⟩

theorem putUser_outside {mem after : Space} {addr a : Nat} {value : BitVec 32}
    (h : putUser mem value addr = some after) (ha : a < addr ∨ addr + sizeofInt ≤ a) :
    after.byte a = mem.byte a := by
  obtain ⟨-, h⟩ := Option.ite_none_left_eq_some.mp h
  rw [← Option.some.inj h]
  exact copyOut_outside (by rwa [length_intBytes])

end UserAccess

end Kbuf
