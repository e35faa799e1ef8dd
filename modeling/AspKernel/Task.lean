import AspKernel.State
import AspKernel.Lib.Links

namespace AspKernel
set_option autoImplicit true

/-- `PRIMAP_BIT`. -/
def primapBit (pri : Nat) : BitVec 16 := 1#16 <<< pri

def bitmapSearchTable : List Nat := [0, 1, 0, 2, 0, 1, 0, 3, 0, 1, 0, 2, 0, 1, 0]

def bitmapSearch (bitmap : BitVec 16) : Nat :=
  let r := if bitmap &&& 0x00ff = 0 then (8, bitmap >>> 8) else (0, bitmap)
  let r := if r.2 &&& 0x0f = 0 then (r.1 + 4, r.2 >>> 4) else r
  r.1 + bitmapSearchTable.getD ((r.2 &&& 0x0f).toNat - 1) 0

namespace Sched

/-- The ready queues. -/
def ready (s : Sched) (pri : Nat) : List Nat := s.queue (.ready pri)

def queueDelete (s : Sched) (t : Nat) : Sched := { s with queue := Links.delete s.queue t }

def queueInsertPrev (s : Sched) (q : TaskQueue) (t : Nat) : Sched :=
  { s with queue := Function.update s.queue q (s.queue q ++ [t]) }

def queueInsertNext (s : Sched) (q : TaskQueue) (t : Nat) : Sched :=
  { s with queue := Function.update s.queue q (t :: s.queue q) }

def queueInsertTpri (s : Sched) (priority : Nat → Nat) (q : TaskQueue) (t : Nat) : Sched :=
  let l := Links.insertBy (fun a b => decide (priority a < priority b)) t (s.queue q)
  { s with queue := Function.update s.queue q l }

/-- Number an insertion into a wait queue. -/
def arrive (s : Sched) (t : Nat) : Sched :=
  { s with arrival := Function.update s.arrival t s.arrivals, arrivals := s.arrivals + 1 }

/-- A task enters a wait queue, in the order of priority or of arrival. -/
def enterWait (s : Sched) (priority : Nat → Nat) (q : WQueue) (tpri : Bool) (t : Nat) : Sched :=
  (if tpri then s.queueInsertTpri priority (.wait q) t
    else s.queueInsertPrev (.wait q) t).arrive t

def primapEmpty (s : Sched) : Bool := s.readyPrimap == 0

def primapSet (s : Sched) (pri : Nat) : Sched :=
  { s with readyPrimap := s.readyPrimap ||| primapBit pri }

def primapClear (s : Sched) (pri : Nat) : Sched :=
  { s with readyPrimap := s.readyPrimap &&& ~~~primapBit pri }

/-- Clear the bit of a ready queue that has become empty. -/
def primapUpdate (s : Sched) (pri : Nat) : Sched :=
  if s.ready pri = [] then s.primapClear pri else s

def schedule (s : Sched) (p : Option Nat) : Sched := { s with pSchedtsk := p }

/-- `p_schedtsk = search_schedtsk()`. -/
def searchSchedtsk (s : Sched) : Sched :=
  { s with
    pSchedtsk := (s.ready (bitmapSearch s.readyPrimap)).head?
    bitmapOk := s.bitmapOk && s.readyPrimap != 0 }

def makeRunnable (s : Sched) (priority : Nat → Nat) (dspflg : Bool) (t : Nat) : Sched × Bool :=
  let pri := priority t
  let s := (s.queueInsertPrev (.ready pri) t).primapSet pri
  match s.pSchedtsk with
  | none => (s.schedule (some t), dspflg)
  | some u => if pri < priority u then (s.schedule (some t), dspflg) else (s, false)

def makeNonRunnable (s : Sched) (priority : Nat → Nat) (dspflg : Bool) (t : Nat) :
    Sched × Bool :=
  let pri := priority t
  let s := s.queueDelete t
  if s.ready pri = [] then
    let s := s.primapClear pri
    if s.pSchedtsk = some t then
      (if s.primapEmpty then s.schedule none else s.searchSchedtsk, dspflg)
    else (s, false)
  else if s.pSchedtsk = some t then
    (s.schedule (s.ready pri).head?, dspflg)
  else (s, false)

/-- The task moves from the ready queue of its old priority to the one of its new priority. -/
def requeue (s : Sched) (t oldpri newpri : Nat) (mtxmode : Bool) : Sched :=
  let s := (s.queueDelete t).primapUpdate oldpri
  (if mtxmode then s.queueInsertNext (.ready newpri) t
    else s.queueInsertPrev (.ready newpri) t).primapSet newpri

/-- The task comes before one of the other priority. -/
def ahead (mtxmode : Bool) (newpri pri : Nat) : Bool :=
  if mtxmode then newpri ≤ pri else newpri < pri

/-- The part of `change_priority` for a runnable task; `priority` is the map after the change. -/
def changePriority (s : Sched) (priority : Nat → Nat) (dspflg : Bool) (t oldpri : Nat)
    (mtxmode : Bool) : Sched × Bool :=
  let newpri := priority t
  let s := s.requeue t oldpri newpri mtxmode
  match s.pSchedtsk with
  | none => (s, false)
  | some u =>
    if u = t then
      if oldpri ≤ newpri then
        let s := s.searchSchedtsk
        (s, s.pSchedtsk != some t && dspflg)
      else (s, false)
    else if ahead mtxmode newpri (priority u) then (s.schedule (some t), dspflg)
    else (s, false)

def rotateReadyQueue (s : Sched) (dspflg : Bool) (pri : Nat) : Sched × Bool :=
  match s.ready pri with
  | t :: _ :: _ =>
    let s := (s.queueDelete t).queueInsertPrev (.ready pri) t
    if s.pSchedtsk = some t then (s.schedule (s.ready pri).head?, dspflg)
    else (s, false)
  | _ => (s, false)

/-- `wobj_change_priority`, where the attribute of the object asks for the order of priority. -/
def wobjChangePriority (s : Sched) (priority : Nat → Nat) (q : WQueue) (t : Nat) : Sched :=
  (s.queueDelete t).enterWait priority q true t

end Sched

namespace Core

def priority (c : Core) (t : Nat) : Nat := (c.tcb t).priority

def makeRunnable (c : Core) (t : Nat) : Core × Bool :=
  let r := c.sched.makeRunnable c.priority c.dspflg t
  ({ c with sched := r.1 }, r.2)

def makeNonRunnable (c : Core) (t : Nat) : Core × Bool :=
  let r := c.sched.makeNonRunnable c.priority c.dspflg t
  ({ c with sched := r.1 }, r.2)

def makeDormant (c : Core) (t : Nat) : Core :=
  let p := c.tcb t
  c.setTcb t { p with
    tstat := .DORMANT
    bpriority := p.tinib.ipriority
    priority := p.tinib.ipriority
    wupque := false
    enatex := false
    texptn := 0
    texraised := 0
    texpassed := 0 }

/-- `activate_context` starts the task on an empty stack. -/
def makeActive (c : Core) (t : Nat) : Core × Bool :=
  (c.setTcb t { c.tcb t with tstat := .RUNNABLE, texstk := [], texloop := false }).makeRunnable t

/-- The queue of the object that the waiting information of a task names. -/
def waitQueue (c : Core) (t : Nat) : WQueue := ((c.tcb t).tstat.factor, (c.tcb t).winfo.wobjcb)

def wobjChangePriority (c : Core) (t : Nat) : Core :=
  if (c.wobjatr (c.waitQueue t)).has TA_TPRI then
    { c with sched := c.sched.wobjChangePriority c.priority (c.waitQueue t) t }
  else c

def changePriority (c : Core) (t newpri : Nat) (mtxmode : Bool) : Core × Bool :=
  let oldpri := c.priority t
  let c := c.setTcb t { c.tcb t with priority := newpri }
  if (c.tcb t).tstat.runnable then
    let r := c.sched.changePriority c.priority c.dspflg t oldpri mtxmode
    ({ c with sched := r.1 }, r.2)
  else if (c.tcb t).tstat.waitWobjcb then (c.wobjChangePriority t, false)
  else (c, false)

def rotateReadyQueue (c : Core) (pri : Nat) : Core × Bool :=
  let r := c.sched.rotateReadyQueue c.dspflg pri
  ({ c with sched := r.1 }, r.2)

/-- `call_texrtn` up to the call of the routine. -/
def callTexrtn (c : Core) (t : Nat) : Core :=
  let p := c.tcb t
  c.setTcb t { p with
    enatex := false
    texptn := 0
    texstk := c.disdsp :: p.texstk
    texpassed := p.texpassed ||| p.texptn }

def calltex (c : Core) (t : Nat) : Core :=
  let p := c.tcb t
  if p.enatex && p.texptn != 0 && c.ipmflg then c.callTexrtn t else c

/-- The end of the loop of `call_texrtn`. -/
def texLoop (c : Core) (t : Nat) : Core :=
  let p := c.tcb t
  if p.texptn != 0 then
    c.setTcb t { p with texptn := 0, texloop := false, texpassed := p.texpassed ||| p.texptn }
  else c.setTcb t { p with enatex := true, texstk := p.texstk.tail, texloop := false }

/-- The dispatcher: `p_runtsk` becomes `p_schedtsk`, which goes on where it was suspended. -/
def dispatcher (c : Core) : Core :=
  let c := { c with pRuntsk := c.sched.pSchedtsk }
  match c.pRuntsk with
  | none => c
  | some t => if (c.tcb t).texloop then c.texLoop t else c.calltex t

/-- `call_texrtn` from the return of the routine: it dispatches before the end of its loop. -/
def texReturn (c : Core) (t : Nat) : Core :=
  let disdsp := (c.tcb t).texstk.headD false
  let c := { c with ipmflg := true, disdsp := disdsp, dspflg := !disdsp, cpulock := false }
  let c := c.setTcb t { c.tcb t with enatex := false, texloop := true }
  if c.pRuntsk ≠ c.sched.pSchedtsk ∧ c.dspflg then c.dispatcher else c.texLoop t

end Core

end AspKernel
