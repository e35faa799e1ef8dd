import AspKernel.Basic
import AspKernel.Lib.Heap

namespace AspKernel
set_option autoImplicit true

/-- The queues that a task is linked into by its `task_queue`. -/
inductive TaskQueue
  | ready (pri : Nat)
  | wait (q : WQueue)
  deriving DecidableEq

/-- The queues of tasks and the scheduler's variables. `arrival` is no variable of the kernel: it
numbers the insertions into wait queues, and `bitmapOk` is the assertion of `bitmap_search`. -/
structure Sched where
  queue : TaskQueue → List Nat
  readyPrimap : BitVec 16
  pSchedtsk : Option Nat
  arrival : Nat → Nat
  arrivals : Nat
  bitmapOk : Bool

/-- A registration of a time event: its number, the number of ticks before it, and the relative
time given to `tmevtb_enqueue`. -/
structure Registration where
  serial : Nat
  ticks : Nat
  reltim : Option RELTIM

/-- An event taken from the heap by `signal_time`. -/
structure Firing where
  p : TmevtbPtr
  time : EVTTIM
  callback : CBack
  reg : Registration

/-- The variables of the time event management. The fields from `ticks` on are no variables of
the kernel: they record the history of the heap, and `dequeueOk` says that `tmevtb_delete` has
been applied to registered blocks only. -/
structure Timer where
  currentTime : EVTTIM
  minTime : EVTTIM
  nextTime : EVTTIM
  nextSubtime : BitVec 32
  heap : BinHeap.Heap EVTTIM TmevtbPtr
  callback : TmevtbPtr → CBack
  ticks : Nat
  serials : Nat
  reg : TmevtbPtr → Registration
  fired : List Firing
  removed : List Nat
  dequeueOk : Bool

structure MTXCB where
  ceilpri : Nat
  pLoctsk : Option Nat

structure CYCCB where
  cycatr : ATR
  cyctim : RELTIM
  cycphs : RELTIM
  cycsta : Bool
  evttim : EVTTIM

structure ALMCB where
  almatr : ATR
  almsta : Bool

/-- Everything except the control blocks of the communication objects. The attribute of a
synchronization object is kept with its wait queue, and so is its free list. -/
structure Core where
  tcb : Nat → TCB
  freeTcb : List Nat
  pRuntsk : Option Nat
  reqflg : Bool
  ipmflg : Bool
  disdsp : Bool
  dspflg : Bool
  sched : Sched
  wobjatr : WQueue → ATR
  freeWobj : WaitFactor → List Nat
  mtxcb : Nat → MTXCB
  /-- The `mutex_queue` of every task. -/
  mutexQueue : Nat → List Nat
  tm : Timer
  cyccb : Nat → CYCCB
  freeCyccb : List Nat
  almcb : Nat → ALMCB
  freeAlmcb : List Nat
  /-- The nesting of interrupt handlers. -/
  intnest : Nat
  /-- The CPU lock taken by `loc_cpu` and `iloc_cpu`. -/
  cpulock : Bool
  /-- The interrupt nesting at which `signal_time` runs. -/
  sigtim : Option Nat
  /-- The assertions of the kernel's functions. -/
  assertOk : Bool
  /-- The areas that `kernel_malloc` has returned and `kernel_free` has not got back; `freeOk` says
  that `kernel_free` has been called for such areas only. -/
  areas : List Area
  freeOk : Bool

namespace Core

def setTcb (c : Core) (t : Nat) (p : TCB) : Core := { c with tcb := Function.update c.tcb t p }

/-- `p_runtsk`, where it is not `NULL`. -/
def runtsk (c : Core) : Nat := c.pRuntsk.getD 0

/-- `sense_context()`. -/
def senseContext (c : Core) : Bool := c.intnest != 0

end Core

end AspKernel
