import Kbuf.Uapi.Marshalling

namespace Kbuf

open Interleaving UserSpace

section Simulation

variable {pageSize : Nat}

-- The processes and the devices without memory and pages.
def typedDevices (k : Devices pageSize) : TypedDevices := ⟨k.dev, fun d => (k.ring d).mmapData⟩

def typedUser (here : Client) : TypedUser := ⟨here.task.files, here.last⟩

-- The typed call that a method stands for.
def Method.choice (k : Devices pageSize) (task : Task) (fd : BitVec 32) (env : IocEnv) :
    Method → TypedChoice
  | .read _ count => .call fd (.read ⟨count, count⟩)
  | .write buf count => .call fd (.write ⟨task.space.peek buf count, count⟩)
  | .stats _ => .call fd (.getstats false)
  | .reset _ => .call fd .reset
  | .resize _ numBuffers bufferSize =>
      .call fd (.resize ⟨false, numBuffers.toNat, bufferSize.toNat, env.kmalloc⟩)
  | .setMode _ mode => .call fd (.smode ⟨false, mode.code.toInt⟩)
  | .exportDmabuf _ => .exportDmabuf fd (exportAnswer env)
  | .runImportSelftest _ dmabuf =>
      .importSelftest fd dmabuf
        (importAnswer (kbufDmabufImportSelftest task.files k.ring dmabuf env.importing).2.result)

-- The typed step `own` leads to where the method leads.
def Method.SimulatedBy (m : Method) (k : Devices pageSize) (here : Client) (dev : Nat)
    (env : IocEnv) (own : TypedChoice) : Prop :=
  ∀ p, typed p own (typedUser here) (typedDevices k) =
    some (typedDevices (m.run k here.task dev env).1,
      typedUser ⟨(m.run k here.task dev env).2.1, some (dev, (m.run k here.task dev env).2.2)⟩)

variable {k : Devices pageSize} {here : Client} {dev : Nat} {env : IocEnv} {fd : BitVec 32}

theorem Method.Does.simulated {m : Method} {call : Call} (h : m.Does k here.task dev env call)
    (hfile : fget here.task.files fd = some (.kbuf dev)) :
    m.SimulatedBy k here dev env (.call fd call) := by
  intro p
  simp only [typed, typedUser, hfile, callStep, typedDevices, h.kernel, h.files, h.result]
  rfl

theorem export_simulated {dfd : Nat} (hvalid : (Method.exportDmabuf dfd).Valid here.task.space)
    (hfile : fget here.task.files fd = some (.kbuf dev)) :
    (Method.exportDmabuf dfd).SimulatedBy k here dev env
      (.exportDmabuf fd (exportAnswer env)) := by
  intro p
  obtain ⟨hk, hstep⟩ := export_does k dev env hvalid (typedUser here) rfl
  have hfile' : fget (typedUser here).files fd = some (.kbuf dev) := hfile
  simp only [typed, hfile']
  rw [hstep, hk]
  rfl

theorem import_simulated {dfd : Nat} {dmabuf : BitVec 32}
    (hvalid : (Method.runImportSelftest dfd dmabuf).Valid here.task.space)
    (hfile : fget here.task.files fd = some (.kbuf dev)) :
    (Method.runImportSelftest dfd dmabuf).SimulatedBy k here dev env
      ((Method.runImportSelftest dfd dmabuf).choice k here.task fd env) := by
  intro p
  have hfile' : fget (typedUser here).files fd = some (.kbuf dev) := hfile
  rw [import_does hvalid]
  simp only [Method.choice, typed, hfile', importedStep]
  cases hresult :
      (kbufDmabufImportSelftest here.task.files k.ring dmabuf env.importing).2.result with
  | error e =>
      rw [selftest_error hresult]
      simp only [importAnswer, checked_error]
      rfl
  | ok done =>
      obtain ⟨ring, hring⟩ := selftest_file hresult
      have hring' : fget (typedUser here).files dmabuf = some (.dmabuf ring) := hring
      rw [selftest_ok hring hresult]
      simp only [importAnswer, hring', Option.some.injEq, Prod.mk.injEq]
      refine ⟨congrArg (TypedDevices.mk k.dev) (funext fun d => ?_), rfl⟩
      dsimp only
      by_cases hd : d = ring
      · subst hd
        rw [Function.update_self, Function.update_self, echo_data]
        rfl
      · rw [Function.update_of_ne hd, Function.update_of_ne hd]
        rfl

-- One case for each method.
theorem method_simulated (h : Representable (k.dev dev)) (m : Method)
    (hvalid : m.Valid here.task.space) (hfile : fget here.task.files fd = some (.kbuf dev)) :
    m.SimulatedBy k here dev env (m.choice k here.task fd env) := by
  cases m with
  | read buf count => exact (read_does h.wellformed hvalid).simulated hfile
  | write buf count => exact (write_does h.wellformed hvalid).simulated hfile
  | stats s => exact (stats_does h hvalid).simulated hfile
  | reset arg => exact (reset_does arg).simulated hfile
  | resize r numBuffers bufferSize => exact (resize_does hvalid).simulated hfile
  | setMode v mode => exact (setMode_does hvalid).simulated hfile
  | exportDmabuf dfd => exact export_simulated hvalid hfile
  | runImportSelftest dfd dmabuf => exact import_simulated hvalid hfile

-- A typed step keeps every device representable.
theorem typed_representable {p : Nat} {choice : TypedChoice} {user : TypedUser}
    {devices : TypedDevices} {next : TypedDevices × TypedUser}
    (h : ∀ d, Representable (devices.dev d)) (hstep : typed p choice user devices = some next)
    (d : Nat) : Representable (next.1.dev d) := by
  cases choice with
  | openDevice dev =>
      obtain rfl := Option.some.inj hstep
      exact h d
  | close fd =>
      obtain rfl := Option.some.inj hstep
      exact h d
  | call fd call =>
      simp only [typed] at hstep
      split at hstep
      · rename_i dev _
        obtain rfl := Option.some.inj hstep
        simp only [callStep]
        by_cases hd : d = dev
        · subst hd
          rw [Function.update_self]
          exact (h d).exec call
        · rw [Function.update_of_ne hd]
          exact h d
      · cases hstep
  | exportDmabuf fd answer =>
      simp only [typed] at hstep
      split at hstep
      · obtain rfl := Option.some.inj hstep
        exact h d
      · cases hstep
  | importSelftest fd dmabuf answer =>
      simp only [typed] at hstep
      split at hstep
      · simp only [importedStep] at hstep
        split at hstep
        · obtain rfl := Option.some.inj hstep
          exact h d
        · obtain rfl := Option.some.inj hstep
          exact h d
        · cases hstep
      · cases hstep

-- The typed state that a state of the processes stands for.
structure StandsFor (s : State (Devices pageSize) Client) (u : State TypedDevices TypedUser) :
    Prop where
  state : u = s.map typedDevices typedUser
  devices : ∀ d, Representable (s.shared.dev d)

variable {s t : State (Devices pageSize) Client} {u : State TypedDevices TypedUser}

-- A step of a process that is the typed step `own`.
theorem StandsFor.move (h : StandsFor s u) (p : Nat) (own : TypedChoice)
    (next : Devices pageSize × Client)
    (hown : typed p own (typedUser (s.locals p)) (typedDevices s.shared) =
      some (typedDevices next.1, typedUser next.2)) :
    ∃ owns v, run typed u owns = some v ∧
      trace typed typedNote u owns = (typedNote ⟨p, own⟩ (typedUser next.2)).toList ∧
      StandsFor (s.put p next) v := by
  have hstep : step typed u ⟨p, own⟩ = some ((s.put p next).map typedDevices typedUser) := by
    rw [h.state, State.map_put]
    exact congrArg (Option.map ((s.map typedDevices typedUser).put p)) hown
  have hbefore : ∀ d, Representable ((typedDevices s.shared).dev d) := h.devices
  refine ⟨[⟨p, own⟩], (s.put p next).map typedDevices typedUser, ?_, ?_, rfl,
    typed_representable hbefore hown⟩
  · rw [run, hstep]
    rfl
  · rw [trace_cons _ hstep, State.map_put, State.put_locals_self]
    exact List.append_nil _

theorem method_note (m : Method) (p : Nat) (fd : BitVec 32) (env : IocEnv) (task : Task)
    (client : Client) :
    typedNote ⟨p, m.choice k task fd env⟩ (typedUser client) =
      clientNote ⟨p, .method fd m env⟩ client := by
  cases m <;> rfl

-- What the typed system does while a process takes a step.
theorem clients_simulated (h : StandsFor s u) {act : Act ClientChoice}
    (hvalid : MethodsValid s act) (hstep : step (clients pageSize) s act = some t) :
    ∃ owns v, run typed u owns = some v ∧
      trace typed typedNote u owns = (clientNote act (t.locals act.pid)).toList ∧
      StandsFor t v := by
  obtain ⟨next, hp, rfl⟩ := step_eq_some hstep
  obtain ⟨p, choice⟩ := act
  rw [State.put_locals_self]
  cases choice with
  | openDevice dev =>
      obtain rfl := Option.some.inj hp
      exact h.move p (.openDevice dev) _ rfl
  | close fd =>
      obtain rfl := Option.some.inj hp
      exact h.move p (.close fd) _ rfl
  | store addr bytes =>
      -- the typed system has no memory to store into
      obtain rfl := Option.some.inj hp
      refine ⟨[], u, rfl, rfl, ?_, h.devices⟩
      rw [h.state, State.map_put]
      exact congrArg (State.mk _) (Function.update_eq_self p _).symm
  | method fd m env =>
      simp only [clients] at hp
      split at hp
      · rename_i dev hfile
        obtain rfl := Option.some.inj hp
        have hmove := h.move p (m.choice s.shared (s.locals p).task fd env)
          ((m.run s.shared (s.locals p).task dev env).1,
            ⟨(m.run s.shared (s.locals p).task dev env).2.1,
              some (dev, (m.run s.shared (s.locals p).task dev env).2.2)⟩)
          (method_simulated (h.devices dev) m hvalid hfile p)
        rw [method_note m p fd env] at hmove
        exact hmove
      · cases hp

end Simulation

section Runs

variable {pageSize : Nat} {rings : Nat → Backing pageSize} {spaces : Nat → Space}
  {acts : List (Act ClientChoice)} {s : State (Devices pageSize) Client}

theorem standsFor_boot (rings : Nat → Backing pageSize) (spaces : Nat → Space) :
    StandsFor (clientsBoot rings spaces) (typedBoot fun d => (rings d).mmapData) :=
  ⟨rfl, fun _ => representable_freshDev⟩

def obliging : IocEnv := ⟨fun _ => true, none, none, ⟨none, ⟨true, .ok (), .ok ()⟩, none⟩⟩

-- One process makes the ring of device 0 smaller, sends a message and exports the other ring.
-- A second one reads the message, finds the ring empty and tests the dma-buf of a descriptor
-- that it does not have.
def messageAndExport : List (Act ClientChoice) :=
  [⟨0, .openDevice 0⟩, ⟨0, .method 0 (.resize 0x100 2 4) obliging⟩,
    ⟨0, .store 0x200 [7, 8, 9]⟩, ⟨0, .method 0 (.write 0x200 3) obliging⟩,
    ⟨0, .method 0 (.exportDmabuf 0x100) obliging⟩, ⟨1, .openDevice 0⟩,
    ⟨1, .method 0 (.read 0x300 8) obliging⟩, ⟨1, .method 0 (.read 0x300 8) obliging⟩,
    ⟨0, .method 0 (.runImportSelftest 0x100 1) obliging⟩,
    ⟨1, .method 0 (.runImportSelftest 0x100 1) obliging⟩]

def openSpace : Space := ⟨fun _ => 0, fun _ => true, fun _ => true⟩

end Runs

end Kbuf
