import Kbuf.Device.Meters
import Kbuf.Uapi.Methods

namespace Kbuf

open UserSpace

section Devices

variable {dev : Dev}

theorem toUnsigned_lt (value : Int) : toUnsigned value < 2 ^ 32 := by
  simp only [toUnsigned]
  omega

theorem Meters.after_peak_le (m : Meters) (depth : Nat) (call : Call) (ret : Ret) :
    (m.after depth call ret).peakCount ≤ max m.peakCount depth := by
  unfold Meters.after
  split
  · rename_i val _
    cases val <;> exact Nat.le_max_left ..
  · rename_i val
    cases val with
    | error e => exact Nat.le_max_left ..
    | ok len => exact Nat.le_refl _
  · exact Nat.zero_le _
  · exact Nat.le_max_left ..

-- A device as every call leaves it. peak_count is an unsigned int in the source.
structure Representable (dev : Dev) : Prop where
  wellformed : Wellformed dev
  peak : dev.peakCount < 2 ^ 32

theorem num_lt (h : Wellformed dev) : dev.numBuffers < 2 ^ 32 :=
  Nat.lt_of_le_of_lt h.geometry.num_le (by decide)

theorem Representable.exec (h : Representable dev) (call : Call) :
    Representable (exec dev call).1 := by
  obtain ⟨h', -⟩ := exec_refined h.wellformed call
  refine ⟨h', ?_⟩
  by_cases hreset : call = .reset
  · subst hreset
    exact toUnsigned_lt dev.count
  · have hmeters := congrArg Meters.peakCount (exec_meters h.wellformed call hreset)
    have hle := Meters.after_peak_le (meters dev) (queue (Kbuf.exec dev call).1).length call
      (Kbuf.exec dev call).2
    have hdepth := queue_length_le h'
    have hnum := num_lt h'
    have hpeak : (meters dev).peakCount < 2 ^ 32 := h.peak
    have hafter : (Kbuf.exec dev call).1.peakCount ≤
        max (meters dev).peakCount (queue (Kbuf.exec dev call).1).length := hmeters.trans_le hle
    omega

theorem representable_freshDev : Representable freshDev := ⟨freshDev_wellformed, by decide⟩

theorem Representable.narrow (h : Representable dev) : (iocGetstats dev).Narrow := by
  have hnum := num_lt h.wellformed
  have hsize := h.wellformed.geometry.size_le
  have hcount : occupancy dev ≤ dev.numBuffers := by
    rw [occupancy_eq h.wellformed]
    exact queue_length_le h.wellformed
  simp only [KBUF_MAX_BUFFER_SIZE] at hsize
  refine ⟨?_, ?_, ?_, h.peak⟩ <;> simp only [iocGetstats] <;> omega

end Devices

section Results

theorem checked_error (e : ErrCode) (value : Value) : checked (.error e) value = .error e.val := by
  have := libcOf_error e
  exact congrArg (Except.map fun _ => value) this

theorem checked_statusOf (val : Except Errno Unit) :
    checked (statusOf val) .unit = (Ret.status val).result := by
  cases val with
  | error e => exact checked_error ..
  | ok done => rfl

theorem libcOf_mapError (val : Except Errno Nat) (f : Nat → Value) :
    (libcOf (retOf (val.mapError Errno.code))).map f = thrown (val.map f) := by
  cases val with
  | error e => exact congrArg (Except.map f) (libcOf_error e.code)
  | ok n => exact congrArg (Except.map f) (libcOf_ok n)

end Results

section Calls

variable {pageSize : Nat} {k : Devices pageSize} {task : Task} {dev : Nat} {env : IocEnv}

-- A method does what the call does that it stands for.
structure Method.Does (m : Method) (k : Devices pageSize) (task : Task) (dev : Nat) (env : IocEnv)
    (call : Call) : Prop where
  kernel : (m.run k task dev env).1 = k.setDev dev (exec (k.dev dev) call).1
  files : (m.run k task dev env).2.1.files = task.files
  result : (m.run k task dev env).2.2 = (exec (k.dev dev) call).2.result

-- What a read returns is what it has stored.
theorem read_stored (h : Wellformed (k.dev dev)) (u : UserRead) :
    ∃ val out, (kbufRead (k.dev dev) u).2 = .bytes val out ∧ ∀ n, val = .ok n → out.length = n := by
  obtain ⟨h', hstep⟩ := exec_refined h (.read u)
  change h.fifo.ReadStep u (kbufRead (k.dev dev) u).2 _ at hstep
  unfold Fifo.ReadStep at hstep
  split at hstep
  · refine ⟨_, _, hstep.1, fun n hn => ?_⟩
    cases hn
  split at hstep
  · refine ⟨_, _, hstep.1, fun n hn => ?_⟩
    rw [List.length_take]
    exact Except.ok.inj hn
  · refine ⟨_, _, hstep.1, fun n hn => ?_⟩
    cases hn

theorem read_does (h : Wellformed (k.dev dev)) {buf count : Nat}
    (hvalid : (Method.read buf count).Valid task.space) :
    (Method.read buf count).Does k task dev env (.read ⟨count, count⟩) := by
  have hroom : reach task.space.writable buf count = count := reach_eq_iff.mpr hvalid
  obtain ⟨val, out, hret, hlen⟩ := read_stored h ⟨count, count⟩
  refine ⟨?_, rfl, ?_⟩
  · simp only [Method.run, sysRead, hroom]
    rfl
  · simp only [Method.run, sysRead, hroom, hret, Ret.value, Ret.stored, exec, Ret.result]
    rw [libcOf_mapError]
    cases val with
    | error e => rfl
    | ok n =>
        have hout := hlen n rfl
        subst hout
        rw [Except.map, peek_poke]
        rfl

theorem write_size (h : Wellformed (k.dev dev)) (u : UserWrite) :
    ∃ val, (kbufWrite (k.dev dev) u).2 = .size val := by
  obtain ⟨h', hstep⟩ := exec_refined h (.write u)
  change h.fifo.WriteStep u (kbufWrite (k.dev dev) u).2 _ at hstep
  unfold Fifo.WriteStep at hstep
  split at hstep
  · split at hstep
    · exact ⟨_, hstep.1⟩
    · exact ⟨_, hstep.1⟩
  · exact ⟨_, hstep.1⟩

theorem write_does (h : Wellformed (k.dev dev)) {buf count : Nat}
    (hvalid : (Method.write buf count).Valid task.space) :
    (Method.write buf count).Does k task dev env (.write ⟨task.space.peek buf count, count⟩) := by
  have hcopy := copyIn_of_allowed hvalid
  obtain ⟨val, hret⟩ := write_size h ⟨task.space.peek buf count, count⟩
  refine ⟨?_, rfl, ?_⟩
  · simp only [Method.run, sysWrite, hcopy]
    rfl
  · simp only [Method.run, sysWrite, hcopy, hret, Ret.value, exec, Ret.result]
    exact libcOf_mapError val .size

theorem stats_does (h : Representable (k.dev dev)) {s : Nat}
    (hvalid : (Method.stats s).Valid task.space) :
    (Method.stats s).Does k task dev env (.getstats false) := by
  have hlen := Stats.length_bytes (iocGetstats (k.dev dev))
  have hcopy : ((task.poke s (List.replicate statsLayout.sum 0)).space.copyOut s
      (iocGetstats (k.dev dev)).bytes) =
      ((task.poke s (List.replicate statsLayout.sum 0)).space.poke s
        (iocGetstats (k.dev dev)).bytes, 0) :=
    copyOut_of_allowed (by rw [hlen]; exact hvalid)
  refine ⟨?_, ?_, ?_⟩
  · simp only [Method.run, kbufIoctl_getstats]
    exact congrArg (Devices.mk · k.ring) (Function.update_eq_self dev k.dev).symm
  · simp only [Method.run, kbufIoctl_getstats]
    rfl
  · simp only [Method.run, kbufIoctl_getstats, kbufIocGetstats, hcopy]
    have hpeek := peek_poke (task.poke s (List.replicate statsLayout.sum 0)).space s
      (iocGetstats (k.dev dev)).bytes
    rw [hlen] at hpeek
    rw [hpeek, h.narrow.ofBytes_bytes]
    rfl

theorem reset_does (arg : Nat) : (Method.reset arg).Does k task dev env .reset := by
  refine ⟨?_, ?_, ?_⟩ <;> simp only [Method.run, kbufIoctl_reset] <;> rfl

theorem fetchResize_poke {mem : Space} {r : Nat} (h : Allowed mem.readable r resizeLayout.sum)
    (numBuffers bufferSize : BitVec 32) (kmalloc : Nat → Bool) :
    fetchResize (mem.poke r (Words.pack resizeLayout [numBuffers.toNat, bufferSize.toNat])) r
        kmalloc = ⟨false, numBuffers.toNat, bufferSize.toNat, kmalloc⟩ := by
  have hfits : Words.Fits resizeLayout [numBuffers.toNat, bufferSize.toNat] :=
    ⟨numBuffers.isLt, bufferSize.isLt, trivial⟩
  have hlen : (Words.pack resizeLayout [numBuffers.toNat, bufferSize.toNat]).length =
      resizeLayout.sum := Words.length_pack rfl
  rw [fetchResize, copyIn_poke h hlen]
  simp only [Words.unpack_pack hfits]
  rfl

theorem resize_does {r : Nat} {numBuffers bufferSize : BitVec 32}
    (hvalid : (Method.resize r numBuffers bufferSize).Valid task.space) :
    (Method.resize r numBuffers bufferSize).Does k task dev env
      (.resize ⟨false, numBuffers.toNat, bufferSize.toNat, env.kmalloc⟩) := by
  have hfetch := fetchResize_poke hvalid numBuffers bufferSize env.kmalloc
  refine ⟨?_, ?_, ?_⟩
  all_goals simp only [Method.run, kbufIoctl_resize, Task.poke, hfetch]
  · rfl
  · exact checked_statusOf _

theorem fetchMode_poke {mem : Space} {v : Nat} (h : Allowed mem.readable v sizeofInt)
    (mode : Mode) :
    fetchMode (mem.poke v (intBytes mode.code)) v = ⟨false, mode.code.toInt⟩ := by
  rw [fetchMode, getUser_poke h]

theorem setMode_does {v : Nat} {mode : Mode} (hvalid : (Method.setMode v mode).Valid task.space) :
    (Method.setMode v mode).Does k task dev env (.smode ⟨false, mode.code.toInt⟩) := by
  have hfetch := fetchMode_poke hvalid mode
  refine ⟨?_, ?_, ?_⟩
  all_goals simp only [Method.run, kbufIoctl_smode, Task.poke, hfetch]
  · rfl
  · exact checked_statusOf _

end Calls

section Handles

variable {pageSize : Nat} {k : Devices pageSize} {task : Task} {dev : Nat} {env : IocEnv}

-- What the kernel may refuse before a descriptor is chosen.
def exportAnswer (env : IocEnv) : Option ErrCode := env.dmaBufExport <|> env.dmaBufFd

theorem kbufDmabufExport_eq (files : List (Option File)) (dev : Nat) (env : IocEnv) :
    kbufDmabufExport files dev env =
      (exportedFd (exportAnswer env) files).map fun n => (n, fdInstall files n (.dmabuf dev)) := by
  unfold kbufDmabufExport exportAnswer
  cases env.dmaBufExport with
  | some e => rfl
  | none =>
      cases env.dmaBufFd with
      | some e => rfl
      | none =>
          change _ = (getUnusedFd files).map _
          cases getUnusedFd files <;> rfl

theorem export_does (k : Devices pageSize) (dev : Nat) (env : IocEnv) {dfd : Nat}
    (hvalid : (Method.exportDmabuf dfd).Valid task.space) (here : TypedUser)
    (hfiles : here.files = task.files) :
    ((Method.exportDmabuf dfd).run k task dev env).1 = k ∧
      exportedStep here dev (exportAnswer env) =
        ⟨((Method.exportDmabuf dfd).run k task dev env).2.1.files,
          some (dev, ((Method.exportDmabuf dfd).run k task dev env).2.2)⟩ := by
  simp only [Method.run, kbufIoctl_export, kbufIocExport, Task.poke, exportedStep, hfiles,
    kbufDmabufExport_eq]
  refine ⟨trivial, ?_⟩
  cases exportedFd (exportAnswer env) task.files with
  | error e =>
      simp only [Except.map]
      rw [checked_error]
  | ok n =>
      have hwritable : Allowed (task.space.poke dfd (intBytes (-1))).writable dfd sizeofInt :=
        hvalid
      have hput := putUser_of_allowed hwritable (BitVec.ofNat 32 n)
      have hpeek := peek_poke (task.space.poke dfd (intBytes (-1))) dfd
        (intBytes (BitVec.ofNat 32 n))
      rw [length_intBytes] at hpeek
      simp only [Except.map, hput, hpeek, ofIntBytes_intBytes]
      rfl

-- The answer that the self-test gives.
def importAnswer (val : Except ErrCode Unit) : Option ErrCode :=
  match val with
  | .ok () => none
  | .error e => some e

theorem import_does {dfd : Nat} {dmabuf : BitVec 32}
    (hvalid : (Method.runImportSelftest dfd dmabuf).Valid task.space) :
    (Method.runImportSelftest dfd dmabuf).run k task dev env =
      ({ k with ring := (kbufDmabufImportSelftest task.files k.ring dmabuf env.importing).1 },
        task.poke dfd (intBytes dmabuf),
        checked (kbufDmabufImportSelftest task.files k.ring dmabuf env.importing).2.result
          .unit) := by
  have hget := getUser_poke hvalid dmabuf
  simp only [Method.run, kbufIoctl_import, kbufIocImport, Task.poke, hget]

end Handles

end Kbuf
