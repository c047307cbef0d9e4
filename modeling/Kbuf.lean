import Kbuf.Device.Refinement
import Kbuf.Device.Conservation
import Kbuf.Device.HighWater
import Kbuf.Device.Disciplines
import Kbuf.Blocking.Linearizable
import Kbuf.Wakeup
import Kbuf.Resize.Overflow
import Kbuf.Resize.PowerOfTwo
import Kbuf.Resize.Memory
import Kbuf.ModeSwitch
import Kbuf.LockDiscipline
import Kbuf.Spsc.Delivery
import Kbuf.Spsc.Resize
import Kbuf.Spsc.Occupancy
import Kbuf.Spsc.Reset
import Kbuf.Spsc.Peak
import Kbuf.Failure.Unchanged
import Kbuf.Mmap.Records
import Kbuf.Mmap.Bench
import Kbuf.Mmap.Dmabuf
import Kbuf.Dyn.Refcount
import Kbuf.Dyn.Names
import Kbuf.Dyn.Rollback
import Kbuf.Dyn.Routing
import Kbuf.Lifecycle.Session
import Kbuf.Handles.Release
import Kbuf.Weak.Stream
import Kbuf.Weak.Strong
import Kbuf.Weak.Delivery
import Kbuf.Atomic.Linearizable
import Kbuf.Poll.Completion
import Kbuf.Weak.Wakeup
import Kbuf.Mmap.Refinement
import Kbuf.Uapi.Refinement
import Kbuf.Spsc.WaitFree
import Kbuf.Mmap.WaitFree
