import AspKernel.Task
import AspKernel.TimeEvent

namespace AspKernel
set_option autoImplicit true

namespace Core

def queueDelete (c : Core) (t : Nat) : Core := { c with sched := c.sched.queueDelete t }

/-- The first task of a wait queue. -/
def headTsk (c : Core) (q : WQueue) : Option Nat := (c.sched.queue (.wait q)).head?

def setWinfo (c : Core) (t : Nat) (w : WInfo) : Core := c.setTcb t { c.tcb t with winfo := w }

def setWercd (c : Core) (t : Nat) (ercd : ER) : Core :=
  c.setWinfo t { (c.tcb t).winfo with cell := .wercd ercd }

/-- `p_runtsk->tstat = (TS_WAITING | TS_WAIT_???)`. -/
def setWaiting (c : Core) (f : WaitFactor) : Core :=
  c.setTcb c.runtsk { c.tcb c.runtsk with tstat := .WAITING f }

def makeWait (c : Core) (w : WInfo) : Core :=
  (c.makeNonRunnable c.runtsk).1.setWinfo c.runtsk { w with cell := .pTmevtb none, tmo := none }

/-- The wait with a time event, which `make_wait_tmout` and `dly_tsk` start. -/
def makeWaitTmevtb (c : Core) (w : WInfo) (tmout : TMO) (cb : CBack) : Core :=
  let p := TmevtbPtr.tsk c.runtsk
  let c := (c.makeNonRunnable c.runtsk).1.setWinfo c.runtsk
    { w with cell := .pTmevtb (some p), tmo := some tmout }
  { c with tm := c.tm.tmevtbEnqueue p tmout cb }

def makeWaitTmout (c : Core) (w : WInfo) (tmout : TMO) : Core :=
  if 0 < tmout.toInt then c.makeWaitTmevtb w tmout .waitTmout
  else { c.makeWait w with assertOk := c.assertOk && tmout == TMO_FEVR }

def makeNonWait (c : Core) (t : Nat) : Core × Bool :=
  let p := c.tcb t
  let c := { c with assertOk := c.assertOk && p.tstat.waiting }
  if p.tstat.suspended then (c.setTcb t { p with tstat := .SUSPENDED }, false)
  else (c.setTcb t { p with tstat := .RUNNABLE }).makeRunnable t

def waitDequeueWobj (c : Core) (t : Nat) : Core :=
  if (c.tcb t).tstat.waitWobj then c.queueDelete t else c

def waitDequeueTmevtb (c : Core) (t : Nat) : Core :=
  match (c.tcb t).winfo.tmevtb with
  | some p => { c with tm := c.tm.tmevtbDequeue p }
  | none => c

def waitComplete (c : Core) (t : Nat) : Core × Bool :=
  ((c.waitDequeueTmevtb t).setWercd t E_OK).makeNonWait t

/-- `reqflg = true`, where the condition holds. -/
def request (c : Core) (b : Bool) : Core := { c with reqflg := c.reqflg || b }

def waitTmout (c : Core) (t : Nat) : Core :=
  let r := ((c.waitDequeueWobj t).setWercd t E_TMOUT).makeNonWait t
  r.1.request r.2

def waitTmoutOk (c : Core) (t : Nat) : Core :=
  let r := (c.setWercd t E_OK).makeNonWait t
  r.1.request r.2

def waitRelease (c : Core) (t : Nat) : Core × Bool :=
  (((c.waitDequeueWobj t).waitDequeueTmevtb t).setWercd t E_RLWAI).makeNonWait t

/-- The running task is linked into a wait queue in the order of priority or of arrival. -/
def queueInsertRuntsk (c : Core) (q : WQueue) (tpri : Bool) : Core :=
  { c with sched := c.sched.enterWait c.priority q tpri c.runtsk }

def setWobjcb (c : Core) (t i : Nat) : Core :=
  c.setWinfo t { (c.tcb t).winfo with wobjcb := i }

def wobjQueueInsert (c : Core) (q : WQueue) : Core :=
  c.queueInsertRuntsk q ((c.wobjatr q).has TA_TPRI)

def wobjMakeWait (c : Core) (q : WQueue) (w : WInfo) : Core :=
  ((c.makeWait w).wobjQueueInsert q).setWobjcb c.runtsk q.2

def wobjMakeWaitTmout (c : Core) (q : WQueue) (w : WInfo) (tmout : TMO) : Core :=
  ((c.makeWaitTmout w tmout).wobjQueueInsert q).setWobjcb c.runtsk q.2

/-- The loop of `init_wait_queue`; it has as many steps as the queue has tasks. -/
def initWaitQueueLoop : Nat → Core → WQueue → Core × Bool
  | 0, c, _ => (c, false)
  | n + 1, c, q =>
    match c.headTsk q with
    | none => (c, false)
    | some t =>
      let r := (((c.queueDelete t).waitDequeueTmevtb t).setWercd t E_DLT).makeNonWait t
      let r' := initWaitQueueLoop n r.1 q
      (r'.1, r.2 || r'.2)

def initWaitQueue (c : Core) (q : WQueue) : Core × Bool :=
  initWaitQueueLoop (c.sched.queue (.wait q)).length c q

end Core

end AspKernel
