import Kbuf.Machine.Blocking
import Kbuf.Machine.Spsc
import Kbuf.Machine.Ioctl
import Kbuf.Lib.Interleaving

namespace Kbuf

open Interleaving

-- Where a process is in the driver.
inductive Local where
  | idle
  | readEntry (nonblock : Bool) (u : UserRead)
  | readBlocking (nonblock : Bool) (u : UserRead) (pc : ReadPc)
  | readSpsc (nonblock : Bool) (u : UserRead) (pc : SpscReadPc)
  | writeEntry (nonblock : Bool) (u : UserWrite)
  | writeBlocking (nonblock : Bool) (u : UserWrite) (pc : WritePc)
  | writeSpsc (nonblock : Bool) (u : UserWrite) (pc : SpscWritePc)
  | resize (rq : ResizeArg) (pc : ResizePc)
  | smode (arg : SmodeArg) (pc : SmodePc)
  | reset (pc : ResetPc)
  | getstats (fault : Bool) (pc : GetstatsPc)
  | poll (pc : PollPc)
  | done (ret : Ret)

def Request.enter : Request → Local
  | .read nonblock u => .readEntry nonblock u
  | .write nonblock u => .writeEntry nonblock u
  | .resize rq => .resize rq .check
  | .smode arg => .smode arg .check
  | .reset => .reset .lock
  | .getstats fault => .getstats fault .lock
  | .poll => .poll .sample

def Next.lift {π : Type} (here : π → Local) : Next π → Local
  | .to pc => here pc
  | .ret value => .done value

def enterStep (w : World) : Choice → Option (World × Local)
  | .start request => some (w, request.enter)
  | _ => none

-- READ_ONCE(dev->mode), once per call
def sampleStep (w : World) (spsc blocking : Local) : Choice → Option (World × Local)
  | .go =>
      match w.dev.mode with
      | .SPSC => some (w, spsc)
      | .BLOCKING => some (w, blocking)
  | _ => none

-- The driver, as one process runs it.
def driver : Program World Local Choice := fun me choice here w =>
  match here with
  | .idle => enterStep w choice
  | .done _ => enterStep w choice
  | .readEntry nonblock u =>
      sampleStep w (.readSpsc nonblock u .empty) (.readBlocking nonblock u .lock) choice
  | .readBlocking nonblock u pc =>
      (readBlockingStep nonblock u me w pc choice).map
        (Prod.map id (Next.lift (.readBlocking nonblock u)))
  | .readSpsc nonblock u pc =>
      (readSpscStep nonblock u me w pc choice).map
        (Prod.map id (Next.lift (.readSpsc nonblock u)))
  | .writeEntry nonblock u =>
      sampleStep w (.writeSpsc nonblock u .clamp) (.writeBlocking nonblock u .lock) choice
  | .writeBlocking nonblock u pc =>
      (writeBlockingStep nonblock u me w pc choice).map
        (Prod.map id (Next.lift fun (u, pc) => .writeBlocking nonblock u pc))
  | .writeSpsc nonblock u pc =>
      (writeSpscStep nonblock u me w pc choice).map
        (Prod.map id (Next.lift fun (u, pc) => .writeSpsc nonblock u pc))
  | .resize rq pc => (resizeStep rq me w pc choice).map (Prod.map id (Next.lift (.resize rq)))
  | .smode arg pc => (smodeStep arg me w pc choice).map (Prod.map id (Next.lift (.smode arg)))
  | .reset pc => (resetStep me w pc choice).map (Prod.map id (Next.lift .reset))
  | .getstats fault pc =>
      (getstatsStep fault me w pc choice).map (Prod.map id (Next.lift (.getstats fault)))
  | .poll pc => (pollStep me w pc choice).map (Prod.map id (Next.lift .poll))

abbrev System := State World Local

-- A device that nobody has entered yet.
def boot (dev : Dev) : System where
  shared :=
    { dev := dev
      slotsPtr := 0
      heap := fun _ => []
      live := [0]
      nextPtr := 1
      lock := none
      readWq := []
      writeWq := []
      log := [] }
  locals := fun _ => .idle

end Kbuf
