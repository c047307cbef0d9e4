import Kbuf.Lib.Ledger
import Kbuf.Mmap.Dmabuf
import Kbuf.Mmap.Process
import Kbuf.Uapi.Commands

namespace Kbuf

open Ledger

section Files

-- What a descriptor stands for: a file of /dev/kbufN, or a dma-buf over the ring of one.
inductive File where
  | kbuf (dev : Nat)
  | dmabuf (dev : Nat)
  deriving DecidableEq, Repr

-- fget takes the int for an unsigned number, so a negative one is far behind the table.
def fget (files : List (Option File)) (fd : BitVec 32) : Option File := files[fd.toNat]?.join

def dmaBufGet (files : List (Option File)) (fd : BitVec 32) : Except ErrCode Nat :=
  match fget files fd with
  | none => .error Errno.EBADF.code
  | some (.kbuf _) => .error Errno.EINVAL.code
  | some (.dmabuf dev) => .ok dev

end Files

section Words

variable {pageSize : Nat}

-- A 32-bit access of the kernel. A word that does not fit behind `off` is not stored.
def Backing.load32 (mem : Backing pageSize) : KernelAddr → BitVec 32
  | .ctrl off => BitVec.ofNat 32 (Words.load mem.mmapCtrl off 4)
  | .data off => BitVec.ofNat 32 (Words.load mem.mmapData off 4)

def Backing.store32 (mem : Backing pageSize) (value : BitVec 32) : KernelAddr → Backing pageSize
  | .ctrl off =>
      if h : off + 4 ≤ mem.mmapCtrl.length then
        mem.setCtrl (Words.store mem.mmapCtrl off 4 value.toNat) (Words.length_store h _)
      else mem
  | .data off =>
      if h : off + 4 ≤ mem.mmapData.length then
        mem.setData (Words.store mem.mmapData off 4 value.toNat) (Words.length_store h _)
      else mem

-- words[1] = words[0], with `words` the address that kbuf_dmabuf_vmap hands out
def Backing.echo (mem : Backing pageSize) : Backing pageSize :=
  let first := mem.load32 (kbufDmabufVmap.plus 0)
  mem.store32 first (kbufDmabufVmap.plus 4)

end Words

section Steps

-- What an import holds while it is at work.
inductive ImportRef where
  | dmabuf
  | attachment
  | sgTable
  | sgEntries
  | dmaMapping
  | vmapping
  deriving DecidableEq, Repr

-- How the dma-buf core answers, and how kbuf_dmabuf_map fares.
structure ImportEnv where
  attach : Option ErrCode
  map : DmabufEnv
  vmap : Option ErrCode

def failure : Except Errno Unit → Option ErrCode
  | .ok () => none
  | .error e => some e.code

-- kbuf_dmabuf_map, by what it allocates and maps
def kbufDmabufMapSteps (env : DmabufEnv) : Routine ImportRef ErrCode :=
  (Routine.acquire (if env.kzalloc then none else some Errno.ENOMEM.code)
    ImportRef.sgTable).orGoto [] <|
  (Routine.acquire (failure env.sgAllocTable) ImportRef.sgEntries).orGoto [.sgTable] <|
  (Routine.acquire (failure env.dmaMapSgtable) ImportRef.dmaMapping).orGoto
    [.sgEntries, .sgTable] .done

def kbufDmabufUnmap : List ImportRef := [.dmaMapping, .sgEntries, .sgTable]

-- The labels at the end of kbuf_dmabuf_import_selftest, each of which falls into the next
def labelPut : List ImportRef := [.dmabuf]
def labelDetach : List ImportRef := [.attachment] ++ labelPut
def labelUnmap : List ImportRef := kbufDmabufUnmap ++ labelDetach

-- kbuf_dmabuf_import_selftest up to the point where it can use the words
def importSteps (pageSize : Nat) (env : ImportEnv) : Routine ImportRef ErrCode :=
  (Routine.acquire none ImportRef.dmabuf).orGoto [] <|
  (Routine.acquire env.attach ImportRef.attachment).orGoto labelPut <|
  (kbufDmabufMapSteps env.map).orGoto labelDetach <|
  (Routine.check (if KBUF_DMABUF_PAGES pageSize < 1 then some EIO else none)).orGoto labelUnmap <|
  (Routine.acquire env.vmap ImportRef.vmapping).orGoto labelUnmap .done

-- The rings of all devices afterwards, and what was acquired and released on the way.
def kbufDmabufImportSelftest {pageSize : Nat} (files : List (Option File))
    (rings : Nat → Backing pageSize) (fd : BitVec 32) (env : ImportEnv) :
    (Nat → Backing pageSize) × Routine ImportRef ErrCode :=
  match dmaBufGet files fd with
  | .error e => (rings, ⟨[], .error e⟩)
  | .ok dev =>
      let steps := importSteps pageSize env
      match steps.result with
      | .error e => (rings, ⟨steps.trace, .error e⟩)
      | .ok () =>
          (Function.update rings dev (rings dev).echo,
            ⟨steps.trace ++ releases ([.vmapping] ++ labelUnmap), .ok ()⟩)

end Steps

section Balance

def mapPlan : List ImportRef := [.sgTable] ++ ([.sgEntries] ++ ([.dmaMapping] ++ []))

theorem kbufDmabufMapSteps_builds (env : DmabufEnv) :
    (kbufDmabufMapSteps env).Builds [] mapPlan :=
  (builds_acquire _ _).orGoto (fun _ _ => .refl _) <|
  (builds_acquire _ _).orGoto (fun _ _ => .refl _) <|
  (builds_acquire _ _).orGoto (fun _ _ => .swap ..) (builds_done _)

-- The steps with the plain outcome of kbuf_dmabuf_map.
theorem kbufDmabufMapSteps_result (pageSize : Nat) (env : DmabufEnv) :
    (kbufDmabufMapSteps env).result = .ok () ↔ ∃ sgl, kbufDmabufMap pageSize env = .ok sgl := by
  obtain ⟨kzalloc, sgAllocTable, dmaMapSgtable⟩ := env
  cases kzalloc <;> cases sgAllocTable <;> cases dmaMapSgtable <;>
    simp [kbufDmabufMapSteps, kbufDmabufMap, Routine.acquire, Routine.orGoto, Routine.done, failure]

def importPlan : List ImportRef :=
  [.dmabuf] ++ ([.attachment] ++ (mapPlan ++ ([] ++ ([.vmapping] ++ []))))

theorem importPlan_nodup : importPlan.Nodup := by decide

theorem labelUnmap_perm : labelUnmap.Perm ([.dmabuf] ++ [.attachment] ++ mapPlan) := by decide

theorem importSteps_builds (pageSize : Nat) (env : ImportEnv) :
    (importSteps pageSize env).Builds [] importPlan := by
  refine (builds_acquire _ _).orGoto (fun _ _ => .refl _) ?_
  refine (builds_acquire _ _).orGoto (fun _ _ => .refl _) ?_
  refine (kbufDmabufMapSteps_builds env.map).orGoto (fun _ _ => .swap ..) ?_
  refine (builds_check _).orGoto (fun _ _ => labelUnmap_perm) ?_
  refine (builds_acquire _ _).orGoto (fun _ _ => ?_) (builds_done _)
  rw [List.append_nil]
  exact labelUnmap_perm

-- Whatever fails on the way, an import gives back all it has taken.
theorem selftest_balanced {pageSize : Nat} (files : List (Option File))
    (rings : Nat → Backing pageSize) (fd : BitVec 32) (env : ImportEnv) :
    replay ∅ (kbufDmabufImportSelftest files rings fd env).2.trace = some ∅ := by
  have hbuilds := importSteps_builds pageSize env
  have hfresh : ∀ r ∈ acquired (importSteps pageSize env).trace, r ∉ (∅ : Finset ImportRef) :=
    fun _ _ => Finset.notMem_empty _
  simp only [kbufDmabufImportSelftest]
  split
  · rfl
  split
  · rename_i e hresult
    exact hbuilds.replay_of_error importPlan_nodup nofun hfresh hresult
  · rename_i hresult
    rw [replay_append_of_some (hbuilds.replay_of_ok importPlan_nodup nofun hfresh hresult)]
    decide

end Balance

section Echo

variable {pageSize : Nat}

theorem data_long (mem : Backing pageSize) : 8 ≤ mem.mmapData.length := by
  rw [mem.data_length]
  decide

-- The first word stands twice at the start, and nothing else has changed.
theorem echo_data (mem : Backing pageSize) :
    mem.echo.mmapData =
      mem.mmapData.take 4 ++ (mem.mmapData.take 4 ++ mem.mmapData.drop 8) := by
  have hlong := data_long mem
  have hword : (BitVec.ofNat 32 (Words.load mem.mmapData 0 4)).toNat =
      Words.load mem.mmapData 0 4 := by
    rw [BitVec.toNat_ofNat]
    exact Nat.mod_eq_of_lt (Words.load_lt ..)
  have hfits : 0 + 4 + 4 ≤ mem.mmapData.length := hlong
  have hstore : Words.store mem.mmapData (0 + 4) 4 (Words.load mem.mmapData 0 4) = _ :=
    Words.store_load_behind hfits
  simp only [Backing.echo, Backing.load32, kbufDmabufVmap, KernelAddr.plus, Backing.store32,
    dif_pos hfits, Backing.setData, hword]
  exact hstore

theorem echo_ctrl (mem : Backing pageSize) : mem.echo.mmapCtrl = mem.mmapCtrl := by
  simp only [Backing.echo, kbufDmabufVmap, KernelAddr.plus, Backing.store32]
  split <;> rfl

-- `after` is `mem` with its second word overwritten by its first, and with nothing else changed.
structure Backing.Echoed (mem after : Backing pageSize) : Prop where
  ctrl : after.mmapCtrl = mem.mmapCtrl
  data : after.mmapData = mem.mmapData.take 4 ++ (mem.mmapData.take 4 ++ mem.mmapData.drop 8)

theorem echoed_echo (mem : Backing pageSize) : mem.Echoed mem.echo :=
  ⟨echo_ctrl mem, echo_data mem⟩

-- The second echo finds the first word where it was, so it stores what is already there.
theorem Backing.Echoed.trans {mem after last : Backing pageSize} (hfirst : mem.Echoed after)
    (hagain : after.Echoed last) : mem.Echoed last := by
  have hlong := data_long mem
  have hlen : (mem.mmapData.take 4).length = 4 := by
    rw [List.length_take]
    omega
  have htake : after.mmapData.take 4 = mem.mmapData.take 4 := by
    rw [hfirst.data, List.take_left' hlen]
  have hdrop : after.mmapData.drop 8 = mem.mmapData.drop 8 := by
    rw [hfirst.data, ← List.append_assoc]
    exact List.drop_left' (by rw [List.length_append, hlen])
  exact ⟨hagain.ctrl.trans hfirst.ctrl, by rw [hagain.data, htake, hdrop]⟩

theorem getD_echo_first (mem : Backing pageSize) {i : Nat} (hi : i < 4) :
    mem.echo.mmapData.getD (4 + i) 0 = mem.mmapData.getD i 0 := by
  have hlong := data_long mem
  have hlen : (mem.mmapData.take 4).length = 4 := by
    rw [List.length_take]
    omega
  rw [echo_data, List.getD_append_right _ _ _ _ (by omega), hlen, Nat.add_sub_cancel_left,
    List.getD_append _ _ _ _ (by omega)]
  simp only [List.getD_eq_getElem?_getD, List.getElem?_take, if_pos hi]

-- A process that has mapped the device finds its own first word in the second place.
theorem echo_seen (hdvd : pageSize ∣ KBUF_MMAP_CAPACITY) {vma : Vma}
    (hmap : kbufMmap pageSize vma = .ok ()) (mem : Backing pageSize) :
    memcpyFrom vma mem.echo (mapData pageSize vma + 4) 4 =
      memcpyFrom vma mem (mapData pageSize vma) 4 := by
  have hold := memcpyFrom_eq hdvd hmap mem 0 4 (by decide)
  rw [Nat.add_zero] at hold
  rw [memcpyFrom_eq hdvd hmap mem.echo 4 4 (by decide), hold, Option.some.injEq]
  apply List.map_congr_left
  intro i hi
  have hlt : i < 4 := List.mem_range.mp hi
  have hcap : KBUF_MMAP_CAPACITY = 65536 := rfl
  rw [Nat.mod_eq_of_lt (by omega), Nat.mod_eq_of_lt (by omega), Nat.zero_add]
  exact getD_echo_first mem hlt

end Echo

section Outcome

variable {pageSize : Nat}

theorem importSteps_result (hdvd : pageSize ∣ KBUF_MMAP_CAPACITY) (env : ImportEnv) :
    (importSteps pageSize env).result = .ok () ↔
      env.attach = none ∧ (∃ sgl, kbufDmabufMap pageSize env.map = .ok sgl) ∧ env.vmap = none := by
  have hpages : ¬KBUF_DMABUF_PAGES pageSize < 1 := by
    have hpos : 0 < KBUF_MMAP_CAPACITY / pageSize :=
      Nat.div_pos (Nat.le_of_dvd (by decide) hdvd) (pageSize_pos hdvd)
    rw [KBUF_DMABUF_PAGES]
    omega
  rw [← kbufDmabufMapSteps_result]
  obtain ⟨attach, map, vmap⟩ := env
  cases attach with
  | some e => simp [importSteps, Routine.acquire, Routine.orGoto]
  | none =>
      cases hmap : (kbufDmabufMapSteps map).result with
      | error e => simp [importSteps, Routine.acquire, Routine.orGoto, hmap]
      | ok done =>
          cases vmap <;>
            simp [importSteps, Routine.acquire, Routine.orGoto, Routine.check, Routine.done, hmap,
              hpages]

theorem selftest_error {files : List (Option File)} {rings : Nat → Backing pageSize}
    {fd : BitVec 32} {env : ImportEnv} {e : ErrCode}
    (h : (kbufDmabufImportSelftest files rings fd env).2.result = .error e) :
    (kbufDmabufImportSelftest files rings fd env).1 = rings := by
  simp only [kbufDmabufImportSelftest] at h ⊢
  split at h
  · rfl
  split at h
  · rfl
  · cases h

theorem selftest_file {files : List (Option File)} {rings : Nat → Backing pageSize}
    {fd : BitVec 32} {env : ImportEnv}
    (h : (kbufDmabufImportSelftest files rings fd env).2.result = .ok ()) :
    ∃ dev, fget files fd = some (.dmabuf dev) := by
  simp only [kbufDmabufImportSelftest, dmaBufGet] at h
  cases hfile : fget files fd with
  | none =>
      rw [hfile] at h
      cases h
  | some file =>
      cases file with
      | kbuf dev =>
          rw [hfile] at h
          cases h
      | dmabuf dev => exact ⟨dev, rfl⟩

theorem selftest_ok {files : List (Option File)} {rings : Nat → Backing pageSize}
    {fd : BitVec 32} {env : ImportEnv} {dev : Nat} (hfile : fget files fd = some (.dmabuf dev))
    (h : (kbufDmabufImportSelftest files rings fd env).2.result = .ok ()) :
    (kbufDmabufImportSelftest files rings fd env).1 =
      Function.update rings dev (rings dev).echo := by
  simp only [kbufDmabufImportSelftest, dmaBufGet, hfile] at h ⊢
  split at h
  · cases h
  · rfl

-- The importer self-test on any descriptor of any process, whatever fails on the way: it gives
-- back all it has taken, and it touches no ring unless it succeeds. It succeeds on every
-- exported ring unless the rest of the kernel refuses something, and then each process that
-- has mapped that device reads its own first word back from the second place.
theorem import_selftest (hdvd : pageSize ∣ KBUF_MMAP_CAPACITY) (files : List (Option File))
    (rings after : Nat → Backing pageSize) (fd : BitVec 32) (env : ImportEnv)
    (steps : Routine ImportRef ErrCode)
    (h : kbufDmabufImportSelftest files rings fd env = (after, steps)) :
    replay ∅ steps.trace = some ∅ ∧
      (steps.result = .ok () ↔
        (∃ dev, fget files fd = some (.dmabuf dev)) ∧ env.attach = none ∧
          (∃ sgl, kbufDmabufMap pageSize env.map = .ok sgl) ∧ env.vmap = none) ∧
      (∀ e, steps.result = .error e → after = rings) ∧
      ∀ dev, steps.result = .ok () → fget files fd = some (.dmabuf dev) →
        (∀ other, other ≠ dev → after other = rings other) ∧
        (after dev).mmapCtrl = (rings dev).mmapCtrl ∧
        (after dev).mmapData = (rings dev).mmapData.take 4 ++
          ((rings dev).mmapData.take 4 ++ (rings dev).mmapData.drop 8) ∧
        ∀ vma, kbufMmap pageSize vma = .ok () →
          memcpyFrom vma (after dev) (mapData pageSize vma + 4) 4 =
            memcpyFrom vma (rings dev) (mapData pageSize vma) 4 := by
  obtain rfl : _ = after := congrArg Prod.fst h
  obtain rfl : _ = steps := congrArg Prod.snd h
  refine ⟨selftest_balanced files rings fd env, ?_, fun e => selftest_error, ?_⟩
  · rw [← importSteps_result hdvd env]
    simp only [kbufDmabufImportSelftest, dmaBufGet]
    cases hfile : fget files fd with
    | none => simp
    | some file =>
        cases file with
        | kbuf dev => simp
        | dmabuf dev =>
            cases (importSteps pageSize env).result with
            | error e => simp
            | ok done => simp
  · intro dev hresult hfile
    rw [selftest_ok hfile hresult]
    refine ⟨fun other hne => Function.update_of_ne hne _ _, ?_⟩
    rw [Function.update_self]
    exact ⟨echo_ctrl _, echo_data _, fun vma hmap => echo_seen hdvd hmap _⟩

-- A process whose descriptor 3 is the device and 4 the dma-buf that it has exported.
def exportedFiles : List (Option File) := [none, none, none, some (.kbuf 0), some (.dmabuf 0)]

def sampleRing : Backing 4096 where
  mmapCtrl := List.replicate 4096 0
  mmapData := [0x0d, 0xf0, 0xfe, 0xca] ++ List.replicate (KBUF_MMAP_CAPACITY - 4) 0
  ctrl_length := List.length_replicate
  data_length := by
    rw [List.length_append, List.length_replicate]
    rfl

theorem import_selftest_magic :
    ∃ after steps, kbufDmabufImportSelftest exportedFiles (fun _ => sampleRing) 4
        ⟨none, ⟨true, .ok (), .ok ()⟩, none⟩ = (after, steps) ∧
      steps.result = .ok () ∧ replay ∅ steps.trace = some ∅ ∧ after 1 = sampleRing ∧
      memcpyFrom sampleVma (after 0) (mapData 4096 sampleVma + 4) 4 =
        memcpyFrom sampleVma sampleRing (mapData 4096 sampleVma) 4 := by
  obtain ⟨after, steps, h⟩ : ∃ after steps, kbufDmabufImportSelftest exportedFiles
      (fun _ => sampleRing) 4 ⟨none, ⟨true, .ok (), .ok ()⟩, none⟩ = (after, steps) := ⟨_, _, rfl⟩
  obtain ⟨hbalanced, hresult, -, hechoes⟩ := import_selftest (by decide) _ _ after _ _ steps h
  have hfile : fget exportedFiles 4 = some (.dmabuf 0) := rfl
  have hok : steps.result = .ok () := hresult.mpr ⟨⟨0, hfile⟩, rfl, ⟨_, rfl⟩, rfl⟩
  obtain ⟨hothers, -, -, hseen⟩ := hechoes 0 hok hfile
  exact ⟨after, steps, h, hok, hbalanced, hothers 1 (by decide), hseen sampleVma (by decide)⟩

end Outcome

end Kbuf
