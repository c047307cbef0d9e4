import Kbuf.Uapi.Importer

namespace Kbuf

open UserSpace

section State

-- The devices of the module, each with its ring of messages and its mmap buffers.
structure Devices (pageSize : Nat) where
  dev : Nat → Dev
  ring : Nat → Backing pageSize

-- A process, as a system call sees it.
structure Task where
  space : Space
  files : List (Option File)

variable {pageSize : Nat}

def Devices.setDev (k : Devices pageSize) (dev : Nat) (next : Dev) : Devices pageSize :=
  { k with dev := Function.update k.dev dev next }

end State

section Descriptors

def NR_OPEN : Nat := 1024 * 1024

def getUnusedFd (files : List (Option File)) : Except ErrCode Nat :=
  let fd := files.findIdx Option.isNone
  if fd < NR_OPEN then .ok fd else .error EMFILE

def fdInstall (files : List (Option File)) (fd : Nat) (file : File) : List (Option File) :=
  if fd < files.length then files.set fd (some file) else files ++ [some file]

def closeFd (files : List (Option File)) (fd : Nat) : List (Option File) := files.set fd none

end Descriptors

section Commands

variable {pageSize : Nat}

-- The answers of the rest of the kernel to one ioctl.
structure IocEnv where
  kmalloc : Nat → Bool
  dmaBufExport : Option ErrCode
  dmaBufFd : Option ErrCode
  importing : ImportEnv

def statusOf : Except Errno Unit → Except ErrCode Unit
  | .ok () => .ok ()
  | .error e => .error e.code

def kbufIocGetstats (dev : Dev) (mem : Space) (arg : Nat) : Space × Except ErrCode Unit :=
  let (mem, left) := mem.copyOut arg (iocGetstats dev).bytes
  (mem, if left ≠ 0 then .error Errno.EFAULT.code else .ok ())

-- copy_from_user(&rq, arg, sizeof(rq))
def fetchResize (mem : Space) (arg : Nat) (kmalloc : Nat → Bool) : ResizeArg :=
  let (bytes, left) := mem.copyIn arg resizeLayout.sum
  let rq := Words.unpack resizeLayout bytes
  ⟨left ≠ 0, rq.getD 0 0, rq.getD 1 0, kmalloc⟩

-- get_user(mode, arg)
def fetchMode (mem : Space) (arg : Nat) : SmodeArg :=
  match getUser mem arg with
  | none => ⟨true, 0⟩
  | some mode => ⟨false, mode.toInt⟩

-- A descriptor for the new dma-buf. On failure dma_buf_put ends it again.
def kbufDmabufExport (files : List (Option File)) (dev : Nat) (env : IocEnv) :
    Except ErrCode (Nat × List (Option File)) :=
  match env.dmaBufExport, env.dmaBufFd, getUnusedFd files with
  | some e, _, _ => .error e
  | none, some e, _ => .error e
  | none, none, .error e => .error e
  | none, none, .ok fd => .ok (fd, fdInstall files fd (.dmabuf dev))

-- The caller will never learn a descriptor that cannot be stored, so it is closed again.
def kbufIocExport (task : Task) (dev arg : Nat) (env : IocEnv) : Task × Except ErrCode Unit :=
  match kbufDmabufExport task.files dev env with
  | .error e => (task, .error e)
  | .ok (fd, files) =>
      match putUser task.space (BitVec.ofNat 32 fd) arg with
      | none => ({ task with files := closeFd files fd }, .error Errno.EFAULT.code)
      | some space => (⟨space, files⟩, .ok ())

def kbufIocImport (k : Devices pageSize) (task : Task) (arg : Nat) (env : IocEnv) :
    Devices pageSize × Except ErrCode Unit :=
  match getUser task.space arg with
  | none => (k, .error Errno.EFAULT.code)
  | some fd =>
      let (ring, steps) := kbufDmabufImportSelftest task.files k.ring fd env.importing
      ({ k with ring := ring }, steps.result)

-- kbuf_ioctl on a file of device `dev`
def kbufIoctl (k : Devices pageSize) (task : Task) (dev : Nat) (cmd : BitVec 32) (arg : Nat)
    (env : IocEnv) : Devices pageSize × Task × Except ErrCode Unit :=
  if iocType cmd ≠ KBUF_IOC_MAGIC then (k, task, .error ENOTTY)
  else if iocNr cmd = 0 ∨ iocNr cmd > KBUF_IOC_MAXNR then (k, task, .error ENOTTY)
  else if cmd = KBUF_IOCGSTATS then
    let (mem, val) := kbufIocGetstats (k.dev dev) task.space arg
    (k, { task with space := mem }, val)
  else if cmd = KBUF_IOCRESET then (k.setDev dev (iocReset (k.dev dev)), task, .ok ())
  else if cmd = KBUF_IOCRESIZE then
    let (next, val) := iocResize (k.dev dev) (fetchResize task.space arg env.kmalloc)
    (k.setDev dev next, task, statusOf val)
  else if cmd = KBUF_IOCSMODE then
    let (next, val) := iocSmode (k.dev dev) (fetchMode task.space arg)
    (k.setDev dev next, task, statusOf val)
  else if cmd = KBUF_IOCEXPORT then
    let (task, val) := kbufIocExport task dev arg env
    (k, task, val)
  else if cmd = KBUF_IOCIMPORT then
    let (k, val) := kbufIocImport k task arg env
    (k, task, val)
  else (k, task, .error ENOTTY)

end Commands

section Dispatch

variable {pageSize : Nat} (k : Devices pageSize) (task : Task) (dev arg : Nat) (env : IocEnv)

theorem kbufIoctl_getstats : kbufIoctl k task dev KBUF_IOCGSTATS arg env =
    (k, { task with space := (kbufIocGetstats (k.dev dev) task.space arg).1 },
      (kbufIocGetstats (k.dev dev) task.space arg).2) := by
  rw [kbufIoctl, if_neg (by decide), if_neg (by decide), if_pos rfl]

theorem kbufIoctl_reset : kbufIoctl k task dev KBUF_IOCRESET arg env =
    (k.setDev dev (iocReset (k.dev dev)), task, .ok ()) := by
  rw [kbufIoctl, if_neg (by decide), if_neg (by decide), if_neg (by decide), if_pos rfl]

theorem kbufIoctl_resize : kbufIoctl k task dev KBUF_IOCRESIZE arg env =
    (k.setDev dev (iocResize (k.dev dev) (fetchResize task.space arg env.kmalloc)).1, task,
      statusOf (iocResize (k.dev dev) (fetchResize task.space arg env.kmalloc)).2) := by
  rw [kbufIoctl, if_neg (by decide), if_neg (by decide), if_neg (by decide), if_neg (by decide),
    if_pos rfl]

theorem kbufIoctl_smode : kbufIoctl k task dev KBUF_IOCSMODE arg env =
    (k.setDev dev (iocSmode (k.dev dev) (fetchMode task.space arg)).1, task,
      statusOf (iocSmode (k.dev dev) (fetchMode task.space arg)).2) := by
  rw [kbufIoctl, if_neg (by decide), if_neg (by decide), if_neg (by decide), if_neg (by decide),
    if_neg (by decide), if_pos rfl]

theorem kbufIoctl_export : kbufIoctl k task dev KBUF_IOCEXPORT arg env =
    (k, kbufIocExport task dev arg env) := by
  rw [kbufIoctl, if_neg (by decide), if_neg (by decide), if_neg (by decide), if_neg (by decide),
    if_neg (by decide), if_neg (by decide), if_pos rfl]

theorem kbufIoctl_import : kbufIoctl k task dev KBUF_IOCIMPORT arg env =
    ((kbufIocImport k task arg env).1, task, (kbufIocImport k task arg env).2) := by
  rw [kbufIoctl, if_neg (by decide), if_neg (by decide), if_neg (by decide), if_neg (by decide),
    if_neg (by decide), if_neg (by decide), if_neg (by decide), if_pos rfl]

def kbufCommands : List (BitVec 32) :=
  [KBUF_IOCGSTATS, KBUF_IOCRESET, KBUF_IOCRESIZE, KBUF_IOCSMODE, KBUF_IOCEXPORT, KBUF_IOCIMPORT]

theorem kbufIoctl_unknown {cmd : BitVec 32} (h : cmd ∉ kbufCommands) :
    kbufIoctl k task dev cmd arg env = (k, task, .error ENOTTY) := by
  simp only [kbufCommands, List.mem_cons, List.not_mem_nil, or_false, not_or] at h
  obtain ⟨hstats, hreset, hresize, hsmode, hexport, himport⟩ := h
  simp only [kbufIoctl, if_neg hstats, if_neg hreset, if_neg hresize, if_neg hsmode,
    if_neg hexport, if_neg himport, ite_self]

end Dispatch

section Table

variable {files : List (Option File)} {fd : Nat}

theorem getUnusedFd_ok (h : getUnusedFd files = .ok fd) :
    fd = files.findIdx Option.isNone ∧ fd < NR_OPEN := by
  simp only [getUnusedFd] at h
  split at h
  · obtain rfl := Except.ok.inj h
    exact ⟨rfl, ‹_›⟩
  · cases h

theorem fget_unused (h : getUnusedFd files = .ok fd) : files[fd]?.join = none := by
  obtain ⟨rfl, -⟩ := getUnusedFd_ok h
  by_cases hlt : files.findIdx Option.isNone < files.length
  · rw [List.getElem?_eq_getElem hlt]
    exact Option.isNone_iff_eq_none.mp (List.findIdx_getElem (w := hlt))
  · rw [List.getElem?_eq_none (Nat.le_of_not_lt hlt)]
    rfl

theorem getElem?_fdInstall (h : getUnusedFd files = .ok fd) (file : File) {i : Nat} (hi : i ≠ fd) :
    (fdInstall files fd file)[i]? = files[i]? := by
  have hle : fd ≤ files.length := (getUnusedFd_ok h).1 ▸ List.findIdx_le_length
  rw [fdInstall]
  split
  · exact List.getElem?_set_ne hi.symm
  · by_cases hlt : i < files.length
    · exact List.getElem?_append_left hlt
    · rw [List.getElem?_eq_none (by rw [List.length_append, List.length_singleton]; omega),
        List.getElem?_eq_none (by omega)]

-- A descriptor that is installed and closed again leaves the table as it was.
theorem fget_closeFd (h : getUnusedFd files = .ok fd) (file : File) (other : BitVec 32) :
    fget (closeFd (fdInstall files fd file) fd) other = fget files other := by
  rw [fget, fget, closeFd]
  by_cases hsame : other.toNat = fd
  · rw [hsame, fget_unused h, List.getElem?_set_self']
    cases (fdInstall files fd file)[fd]? <;> rfl
  · rw [List.getElem?_set_ne (Ne.symm hsame), getElem?_fdInstall h file hsame]

theorem kbufDmabufExport_ok {dev : Nat} {env : IocEnv} {after : List (Option File)}
    (h : kbufDmabufExport files dev env = .ok (fd, after)) :
    getUnusedFd files = .ok fd ∧ after = fdInstall files fd (.dmabuf dev) := by
  unfold kbufDmabufExport at h
  split at h
  · cases h
  · cases h
  · cases h
  · obtain ⟨rfl, rfl⟩ := Prod.mk.inj (Except.ok.inj h)
    exact ⟨‹_›, rfl⟩

end Table

section Effects

variable {pageSize : Nat} {k k' : Devices pageSize} {task task' : Task} {dev arg : Nat}
  {cmd : BitVec 32} {env : IocEnv} {val : Except ErrCode Unit}

-- What an ioctl may do, by its number and its result. A call that fails changes nothing in the
-- kernel, and what is written to the process lies inside the argument that the number of the
-- command announces. No ring of messages but that of the file itself changes. The mmap buffers
-- are another matter: an import works on those behind the dma-buf it is given, and they may
-- belong to another device.
structure IoctlEffect (k : Devices pageSize) (task : Task) (dev : Nat) (cmd : BitVec 32) (arg : Nat)
    (k' : Devices pageSize) (task' : Task) (val : Except ErrCode Unit) : Prop where
  failed : ∀ e, val = .error e → k' = k ∧ ∀ fd, fget task'.files fd = fget task.files fd
  others : ∀ other, other ≠ dev → k'.dev other = k.dev other
  device : ∃ calls, k'.dev dev = (execAll (k.dev dev) calls).1
  rings : cmd ≠ KBUF_IOCIMPORT → k'.ring = k.ring
  imported : ∀ other, k'.ring other ≠ k.ring other →
    cmd = KBUF_IOCIMPORT ∧ val = .ok () ∧
      (∃ fd, getUser task.space arg = some fd ∧ fget task.files fd = some (.dmabuf other)) ∧
      (k.ring other).Echoed (k'.ring other)
  files : cmd ≠ KBUF_IOCEXPORT → task'.files = task.files
  rights : task'.space.readable = task.space.readable ∧ task'.space.writable = task.space.writable
  memory : ∀ a, task'.space.byte a ≠ task.space.byte a →
    iocDir cmd = IOC_READ ∧ arg ≤ a ∧ a < arg + iocSize cmd

-- A command that works on the ring of messages.
theorem ioctlEffect_call (call : Call) {next : Dev} (hnext : next = (exec (k.dev dev) call).1)
    (hfailed : ∀ e, val = .error e → next = k.dev dev) :
    IoctlEffect k task dev cmd arg (k.setDev dev next) task val where
  failed e he := by
    refine ⟨?_, fun _ => rfl⟩
    rw [Devices.setDev, hfailed e he, Function.update_eq_self]
  others other hne := Function.update_of_ne hne ..
  device := ⟨[call], (Function.update_self ..).trans hnext⟩
  rings _ := rfl
  imported _ hne := absurd rfl hne
  files _ := rfl
  rights := ⟨rfl, rfl⟩
  memory a ha := absurd rfl ha

-- A command that leaves the devices alone.
theorem ioctlEffect_task
    (hfailed : ∀ e, val = .error e → ∀ fd, fget task'.files fd = fget task.files fd)
    (hfiles : cmd ≠ KBUF_IOCEXPORT → task'.files = task.files)
    (hrights : task'.space.readable = task.space.readable ∧
      task'.space.writable = task.space.writable)
    (hmemory : ∀ a, task'.space.byte a ≠ task.space.byte a →
      iocDir cmd = IOC_READ ∧ arg ≤ a ∧ a < arg + iocSize cmd) :
    IoctlEffect k task dev cmd arg k task' val where
  failed e he := ⟨rfl, hfailed e he⟩
  others _ _ := rfl
  device := ⟨[], rfl⟩
  rings _ := rfl
  imported _ hne := absurd rfl hne
  files := hfiles
  rights := hrights
  memory := hmemory

theorem statusOf_error {val : Except Errno Unit} {e : ErrCode} (h : statusOf val = .error e) :
    ∃ errno, val = .error errno := by
  cases val with
  | error errno => exact ⟨errno, rfl⟩
  | ok done => cases h

theorem iocResize_error {dev : Dev} {rq : ResizeArg} {e : Errno}
    (h : (iocResize dev rq).2 = .error e) : (iocResize dev rq).1 = dev := by
  simp only [iocResize] at h ⊢
  split at h
  · rfl
  split at h
  · rfl
  split at h
  · rfl
  · cases h

theorem iocSmode_error {dev : Dev} {arg : SmodeArg} {e : Errno}
    (h : (iocSmode dev arg).2 = .error e) : (iocSmode dev arg).1 = dev := by
  simp only [iocSmode] at h ⊢
  split at h
  · rfl
  split at h
  · rfl
  · cases h

theorem outside_or_inside (a arg n : Nat) : (a < arg ∨ arg + n ≤ a) ∨ (arg ≤ a ∧ a < arg + n) := by
  omega

theorem getstats_effect :
    IoctlEffect k task dev KBUF_IOCGSTATS arg k
      { task with space := (kbufIocGetstats (k.dev dev) task.space arg).1 }
      (kbufIocGetstats (k.dev dev) task.space arg).2 := by
  refine ioctlEffect_task (fun _ _ _ => rfl) (fun _ => rfl) ⟨rfl, rfl⟩ fun a ha => ?_
  rcases outside_or_inside a arg statsLayout.sum with hout | hin
  · rw [← Stats.length_bytes (iocGetstats (k.dev dev))] at hout
    exact absurd (copyOut_outside hout) ha
  · exact ⟨by decide, hin⟩

theorem export_effect :
    IoctlEffect k task dev KBUF_IOCEXPORT arg k (kbufIocExport task dev arg env).1
      (kbufIocExport task dev arg env).2 := by
  unfold kbufIocExport
  split
  · exact ioctlEffect_task (fun _ _ _ => rfl) (fun _ => rfl) ⟨rfl, rfl⟩ fun a ha => absurd rfl ha
  · rename_i fd files hexport
    obtain ⟨hunused, rfl⟩ := kbufDmabufExport_ok hexport
    split
    · refine ioctlEffect_task (fun _ _ other => fget_closeFd hunused _ other)
        (fun h => absurd rfl h) ⟨rfl, rfl⟩ fun a ha => absurd rfl ha
    · rename_i space hput
      refine ioctlEffect_task (fun _ h => by cases h) (fun h => absurd rfl h)
        (putUser_rights hput) fun a ha => ?_
      rcases outside_or_inside a arg sizeofInt with hout | hin
      · exact absurd (putUser_outside hput hout) ha
      · exact ⟨by decide, hin⟩

-- An import that changes a ring has found it behind the descriptor, and has gone through.
theorem selftest_changes {files : List (Option File)} {rings : Nat → Backing pageSize}
    {fd : BitVec 32} {env : ImportEnv} {other : Nat}
    (hne : (kbufDmabufImportSelftest files rings fd env).1 other ≠ rings other) :
    (kbufDmabufImportSelftest files rings fd env).2.result = .ok () ∧
      fget files fd = some (.dmabuf other) ∧
      (rings other).Echoed ((kbufDmabufImportSelftest files rings fd env).1 other) := by
  cases hresult : (kbufDmabufImportSelftest files rings fd env).2.result with
  | error e => exact absurd (congrFun (selftest_error hresult) other) hne
  | ok done =>
      obtain ⟨dev, hfile⟩ := selftest_file hresult
      have hrings := selftest_ok hfile hresult
      by_cases hdev : other = dev
      · subst hdev
        rw [hrings, Function.update_self]
        exact ⟨rfl, hfile, echoed_echo _⟩
      · rw [hrings, Function.update_of_ne hdev] at hne
        exact absurd rfl hne

theorem import_effect :
    IoctlEffect k task dev KBUF_IOCIMPORT arg (kbufIocImport k task arg env).1 task
      (kbufIocImport k task arg env).2 := by
  unfold kbufIocImport
  split
  · exact ioctlEffect_task (fun _ _ _ => rfl) (fun _ => rfl) ⟨rfl, rfl⟩ fun a ha => absurd rfl ha
  · rename_i fd hget
    exact {
      failed := fun e he => ⟨congrArg (Devices.mk k.dev) (selftest_error he), fun _ => rfl⟩
      others := fun _ _ => rfl
      device := ⟨[], rfl⟩
      rings := fun h => absurd rfl h
      imported := fun other hne => by
        obtain ⟨hok, hfile, hechoed⟩ := selftest_changes hne
        exact ⟨rfl, hok, ⟨fd, hget, hfile⟩, hechoed⟩
      files := fun _ => rfl
      rights := ⟨rfl, rfl⟩
      memory := fun a ha => absurd rfl ha }

theorem kbufIoctl_effect (k : Devices pageSize) (task : Task) (dev arg : Nat) (cmd : BitVec 32)
    (env : IocEnv) :
    IoctlEffect k task dev cmd arg (kbufIoctl k task dev cmd arg env).1
      (kbufIoctl k task dev cmd arg env).2.1 (kbufIoctl k task dev cmd arg env).2.2 := by
  by_cases hcmd : cmd ∈ kbufCommands
  · simp only [kbufCommands, List.mem_cons, List.not_mem_nil, or_false] at hcmd
    rcases hcmd with rfl | rfl | rfl | rfl | rfl | rfl
    · rw [kbufIoctl_getstats]
      exact getstats_effect
    · rw [kbufIoctl_reset]
      exact ioctlEffect_call .reset rfl nofun
    · rw [kbufIoctl_resize]
      refine ioctlEffect_call (.resize (fetchResize task.space arg env.kmalloc)) rfl fun e he => ?_
      obtain ⟨errno, herror⟩ := statusOf_error he
      exact iocResize_error herror
    · rw [kbufIoctl_smode]
      refine ioctlEffect_call (.smode (fetchMode task.space arg)) rfl fun e he => ?_
      obtain ⟨errno, herror⟩ := statusOf_error he
      exact iocSmode_error herror
    · rw [kbufIoctl_export]
      exact export_effect
    · rw [kbufIoctl_import]
      exact import_effect
  · rw [kbufIoctl_unknown _ _ _ _ _ hcmd]
    exact ioctlEffect_task (fun _ _ _ => rfl) (fun _ => rfl) ⟨rfl, rfl⟩ fun a ha => absurd rfl ha

end Effects

section Runs

variable {pageSize : Nat}

-- An ioctl by any process, whatever its memory and its descriptors are by then.
structure RawCall where
  task : Task
  dev : Nat
  cmd : BitVec 32
  arg : Nat
  env : IocEnv

def ioctlAll (k : Devices pageSize) : List RawCall → Devices pageSize
  | [] => k
  | call :: calls =>
      ioctlAll (kbufIoctl k call.task call.dev call.cmd call.arg call.env).1 calls

theorem execAll_append (dev : Dev) (first rest : List Call) :
    (execAll dev (first ++ rest)).1 = (execAll (execAll dev first).1 rest).1 := by
  induction first generalizing dev with
  | nil => rfl
  | cons call calls ih => exact ih (exec dev call).1

-- One device over a whole run: the commands that reach it are calls of the sequential model.
theorem ioctlAll_dev (k : Devices pageSize) (calls : List RawCall) (dev : Nat) :
    ∃ typed, (ioctlAll k calls).dev dev = (execAll (k.dev dev) typed).1 := by
  induction calls generalizing k with
  | nil => exact ⟨[], rfl⟩
  | cons call calls ih =>
      obtain ⟨rest, hrest⟩ := ih (kbufIoctl k call.task call.dev call.cmd call.arg call.env).1
      have heffect := kbufIoctl_effect k call.task call.dev call.arg call.cmd call.env
      by_cases hdev : dev = call.dev
      · obtain ⟨first, hfirst⟩ := heffect.device
        refine ⟨first ++ rest, ?_⟩
        rw [hdev] at hrest ⊢
        rw [execAll_append, ← hfirst]
        exact hrest
      · refine ⟨rest, ?_⟩
        rw [← heffect.others dev hdev]
        exact hrest

-- The mmap buffers of one device over a whole run. However many imports have reached them, the
-- first word stands twice at most and the rest is as it was.
theorem ioctlAll_ring (k : Devices pageSize) (calls : List RawCall) (dev : Nat) :
    (ioctlAll k calls).ring dev = k.ring dev ∨
      (k.ring dev).Echoed ((ioctlAll k calls).ring dev) := by
  induction calls generalizing k with
  | nil => exact .inl rfl
  | cons call calls ih =>
      have hrest := ih (kbufIoctl k call.task call.dev call.cmd call.arg call.env).1
      have heffect := kbufIoctl_effect k call.task call.dev call.arg call.cmd call.env
      by_cases hsame :
          (kbufIoctl k call.task call.dev call.cmd call.arg call.env).1.ring dev = k.ring dev
      · rw [hsame] at hrest
        exact hrest
      · obtain ⟨-, -, -, hechoed⟩ := heffect.imported dev hsame
        rcases hrest with hrest | hrest
        · exact .inr (hrest ▸ hechoed)
        · exact .inr (hechoed.trans hrest)

-- The boundary holds against any program. Over every sequence of ioctls by any processes, with
-- any command words, addresses and memory behind them, the messages of a device only get where
-- the calls of the sequential model can take them, and its mmap buffers keep everything but
-- their second word. A word that is no command is refused with nothing done; a failed command
-- leaves the kernel as it was; only an import reaches the buffers of a device, and only those
-- of the dma-buf behind its descriptor; and memory is only written for a command whose number
-- says so, inside the argument that it announces.
theorem ioctl_boundary (k : Devices pageSize) (calls : List RawCall) (call : RawCall) :
    (∀ dev, ∃ typed, (ioctlAll k calls).dev dev = (execAll (k.dev dev) typed).1) ∧
      (∀ dev, (ioctlAll k calls).ring dev = k.ring dev ∨
        (k.ring dev).Echoed ((ioctlAll k calls).ring dev)) ∧
      (call.cmd ∉ kbufCommands →
        kbufIoctl (ioctlAll k calls) call.task call.dev call.cmd call.arg call.env =
          (ioctlAll k calls, call.task, .error ENOTTY)) ∧
      ∀ k' task' val,
        kbufIoctl (ioctlAll k calls) call.task call.dev call.cmd call.arg call.env =
          (k', task', val) →
        IoctlEffect (ioctlAll k calls) call.task call.dev call.cmd call.arg k' task' val := by
  refine ⟨ioctlAll_dev k calls, ioctlAll_ring k calls, kbufIoctl_unknown _ _ _ _ _,
    fun k' task' val h => ?_⟩
  have heffect := kbufIoctl_effect (ioctlAll k calls) call.task call.dev call.arg call.cmd call.env
  rwa [h] at heffect

end Runs

end Kbuf
