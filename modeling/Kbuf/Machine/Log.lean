import Kbuf.Machine.History

namespace Kbuf

open Interleaving

-- The same world with some hand-overs recorded before all others.
def World.after (events : List Event) (w : World) : World := { w with log := events ++ w.log }

section Steps

variable (events : List Event) (me : Nat) (w : World) (choice : Choice)

theorem acquire_after {π : Type} (next : π) :
    ((w.after events).acquire me).map (·, next) =
      ((w.acquire me).map (·, next)).map (Prod.map (World.after events) id) := by
  unfold World.acquire
  simp only [apply_ite (Option.map _)]
  rfl

theorem waitEvent_after (wq : Wq) (cond : Dev → Bool) (pc : WaitPc) :
    waitEvent wq cond me (w.after events) pc choice =
      (waitEvent wq cond me w pc choice).map (Prod.map (World.after events) id) := by
  cases pc <;> cases choice <;> cases wq <;>
    first | rfl | (simp only [waitEvent, apply_ite (Option.map _)]; rfl)

theorem consumeStep_after (u : UserRead) :
    consumeStep (w.after events) me u =
      Prod.map (World.after events) id (consumeStep w me u) := by
  have hdev : (w.after events).dev = w.dev := rfl
  unfold consumeStep
  rw [hdev]
  rcases ringConsume w.dev u with ⟨dev, _ | len, out⟩
  · rfl
  · simp [World.after]

theorem produceStep_after (u : UserWrite) :
    produceStep (w.after events) me u =
      Prod.map (World.after events) id (produceStep w me u) := by
  have hdev : (w.after events).dev = w.dev := rfl
  unfold produceStep
  rw [hdev]
  rcases ringProduce w.dev u with ⟨dev, _ | len⟩
  · rfl
  · simp [World.after]

theorem readBlockingStep_after (nonblock : Bool) (u : UserRead) (pc : ReadPc) :
    readBlockingStep nonblock u me (w.after events) pc choice =
      (readBlockingStep nonblock u me w pc choice).map (Prod.map (World.after events) id) := by
  cases pc with
  | lock => cases choice <;> first | rfl | exact acquire_after ..
  | wait pc =>
      simp only [readBlockingStep, waitEvent_after, Option.map_map]
      rfl
  | consume =>
      cases choice <;> first | rfl | (simp only [readBlockingStep, consumeStep_after]; rfl)
  | loop | unlockSleep | unlock | wake =>
      cases choice <;>
        first | rfl | (simp only [readBlockingStep, apply_ite (Option.map _)]; rfl)

theorem writeBlockingStep_after (nonblock : Bool) (u : UserWrite) (pc : WritePc) :
    writeBlockingStep nonblock u me (w.after events) pc choice =
      (writeBlockingStep nonblock u me w pc choice).map (Prod.map (World.after events) id) := by
  cases pc with
  | lock | relock => cases choice <;> first | rfl | exact acquire_after ..
  | wait pc =>
      simp only [writeBlockingStep, waitEvent_after, Option.map_map]
      rfl
  | produce =>
      cases choice <;> first | rfl | (simp only [writeBlockingStep, produceStep_after]; rfl)
  | clamp | loop | unlockSleep | unlock | wake =>
      cases choice <;>
        first | rfl | (simp only [writeBlockingStep, apply_ite (Option.map _)]; rfl)

theorem readSpscStep_after (nonblock : Bool) (u : UserRead) (pc : SpscReadPc) :
    readSpscStep nonblock u me (w.after events) pc choice =
      (readSpscStep nonblock u me w pc choice).map (Prod.map (World.after events) id) := by
  cases pc with
  | wait pc =>
      simp only [readSpscStep, waitEvent_after, Option.map_map]
      rfl
  | publish f => cases choice <;> simp [readSpscStep, World.after]
  | _ =>
      cases choice <;>
        first | rfl | (simp only [readSpscStep, apply_ite (Option.map _)]; rfl)

theorem writeSpscStep_after (nonblock : Bool) (u : UserWrite) (pc : SpscWritePc) :
    writeSpscStep nonblock u me (w.after events) pc choice =
      (writeSpscStep nonblock u me w pc choice).map (Prod.map (World.after events) id) := by
  cases pc with
  | wait pc =>
      simp only [writeSpscStep, waitEvent_after, Option.map_map]
      rfl
  | publish f => cases choice <;> simp [writeSpscStep, World.after]
  | _ =>
      cases choice <;>
        first | rfl | (simp only [writeSpscStep, apply_ite (Option.map _)]; rfl)

theorem resizeStep_after (rq : ResizeArg) (pc : ResizePc) :
    resizeStep rq me (w.after events) pc choice =
      (resizeStep rq me w pc choice).map (Prod.map (World.after events) id) := by
  have hdev : (w.after events).dev = w.dev := rfl
  cases pc with
  | check =>
      cases choice <;> simp only [resizeStep, Option.map_none, hdev]
      rcases resizeCheck w.dev rq with _ | _ <;> rfl
  | alloc =>
      cases choice <;> simp only [resizeStep, Option.map_none]
      rcases allocSlots rq.kmalloc rq.numBuffers rq.bufferSize with _ | _ <;> rfl
  | lock ptr => cases choice <;> first | rfl | exact acquire_after ..
  | swap ptr =>
      have harray : (w.after events).array ptr = w.array ptr := rfl
      cases choice <;> simp only [resizeStep, Option.map_none, hdev, harray]
      rcases resizeSwap w.dev rq (w.array ptr) with _ | _ <;> rfl
  | unlockBusy | freeNew | unlock | freeOld | wake => cases choice <;> rfl

theorem smodeStep_after (arg : SmodeArg) (pc : SmodePc) :
    smodeStep arg me (w.after events) pc choice =
      (smodeStep arg me w pc choice).map (Prod.map (World.after events) id) := by
  have hdev : (w.after events).dev = w.dev := rfl
  cases pc with
  | check =>
      cases choice <;> simp only [smodeStep, Option.map_none]
      rcases smodeCheck arg with _ | _ <;> rfl
  | lock mode => cases choice <;> first | rfl | exact acquire_after ..
  | switch mode =>
      cases choice <;> simp only [smodeStep, Option.map_none, hdev]
      rcases smodeSwitch w.dev mode with _ | _ <;> rfl
  | unlock => cases choice <;> rfl

theorem resetStep_after (pc : ResetPc) :
    resetStep me (w.after events) pc choice =
      (resetStep me w pc choice).map (Prod.map (World.after events) id) := by
  cases pc <;> cases choice <;> first | rfl | exact acquire_after ..

theorem getstatsStep_after (fault : Bool) (pc : GetstatsPc) :
    getstatsStep fault me (w.after events) pc choice =
      (getstatsStep fault me w pc choice).map (Prod.map (World.after events) id) := by
  have hdev : (w.after events).dev = w.dev := rfl
  cases pc with
  | lock => cases choice <;> first | rfl | exact acquire_after ..
  | load =>
      cases choice <;> simp only [getstatsStep, Option.map_none, hdev]
      cases w.dev.mode <;> rfl
  | occ | unlock => cases choice <;> rfl

theorem pollStep_after (pc : PollPc) :
    pollStep me (w.after events) pc choice =
      (pollStep me w pc choice).map (Prod.map (World.after events) id) := by
  have hdev : (w.after events).dev = w.dev := rfl
  cases pc with
  | sample =>
      cases choice <;> simp only [pollStep, Option.map_none, hdev]
      cases w.dev.mode <;> rfl
  | lock => cases choice <;> first | rfl | exact acquire_after ..
  | spscFull | test | unlock => cases choice <;> rfl

theorem lifted_after {π : Type} {step step' : Option (World × Next π)} (here : π → Local)
    (h : step' = step.map (Prod.map (World.after events) id)) :
    step'.map (Prod.map id (Next.lift here)) =
      (step.map (Prod.map id (Next.lift here))).map (Prod.map (World.after events) id) := by
  subst h
  cases step <;> rfl

-- No step reads the history.
theorem driver_after (here : Local) :
    driver me choice here (w.after events) =
      (driver me choice here w).map (Prod.map (World.after events) id) := by
  have hdev : (w.after events).dev = w.dev := rfl
  cases here with
  | idle | done => cases choice <;> rfl
  | readEntry | writeEntry =>
      cases choice <;> simp only [driver, sampleStep, Option.map_none, hdev]
      cases w.dev.mode <;> rfl
  | readBlocking => exact lifted_after events _ (readBlockingStep_after ..)
  | writeBlocking => exact lifted_after events _ (writeBlockingStep_after ..)
  | readSpsc => exact lifted_after events _ (readSpscStep_after ..)
  | writeSpsc => exact lifted_after events _ (writeSpscStep_after ..)
  | resize => exact lifted_after events _ (resizeStep_after ..)
  | smode => exact lifted_after events _ (smodeStep_after ..)
  | reset => exact lifted_after events _ (resetStep_after ..)
  | getstats => exact lifted_after events _ (getstatsStep_after ..)
  | poll => exact lifted_after events _ (pollStep_after ..)

end Steps

section Preloaded

variable (dev : Dev) (s : System)

-- A run from a ring that already holds messages is seen as the continuation of one in
-- which they were written.
def preloaded : System := s.map (World.after ((queue dev).map (.produced 0))) id

theorem preloaded_sent : (preloaded dev s).shared.sent = queue dev ++ s.shared.sent := by
  simp [preloaded, State.map, World.after, World.sent, List.filterMap_map]

theorem preloaded_received : (preloaded dev s).shared.received = s.shared.received := by
  simp [preloaded, State.map, World.after, World.received, List.filterMap_map]

theorem step_preloaded {s t : System} {act : Act Choice} (h : step driver s act = some t) :
    step driver (preloaded dev s) act = some (preloaded dev t) :=
  step_blind (fun pid choice here w => driver_after _ pid w choice here) h

-- The messages that were there first are delivered first.
theorem delivered_preloaded_iff : (preloaded dev s).shared.Delivered ↔
    Delivery.Delivered (fun message got => got.2 = message.take got.1)
      (queue dev ++ s.shared.sent) s.shared.received (queue s.shared.dev) := by
  rw [World.Delivered, preloaded_sent, preloaded_received]
  rfl

theorem delivered_preloaded : (preloaded dev (boot dev)).shared.Delivered := by
  rw [delivered_preloaded_iff]
  exact ⟨[], List.append_nil _, .nil⟩

end Preloaded

end Kbuf
