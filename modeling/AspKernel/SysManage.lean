import AspKernel.Service

namespace AspKernel
set_option autoImplicit true

namespace Core

def rotRdq (c : Core) (tskpri : PRI) : Res Core :=
  check [(c.ctxUnl .tsk, E_CTX), (validTpri tskpri || tskpri == TPRI_SELF, E_PAR)] c <|
  let pri := if tskpri = TPRI_SELF then (c.tcb c.runtsk).bpriority else intPriority tskpri
  let r := c.rotateReadyQueue pri
  .ok .tsk r.1 r.2 .none

def irotRdq (c : Core) (tskpri : PRI) : Res Core :=
  check [(c.ctxUnl .int, E_CTX), (validTpri tskpri, E_PAR)] c <|
  let r := c.rotateReadyQueue (intPriority tskpri)
  .ok .int r.1 r.2 .none

def getTid (c : Core) : Res Core :=
  check [(c.ctxUnl .tsk, E_CTX)] c <| .ok .tsk c false (.tskid (toId c.runtsk))

def igetTid (c : Core) : Res Core :=
  check [(c.ctxUnl .int, E_CTX)] c <|
  .ok .int c false (.tskid (match c.pRuntsk with | none => 0 | some t => toId t))

/-- `loc_cpu` and `iloc_cpu`. -/
def locCpuWith (c : Core) (ctx : Ctx) : Res Core :=
  check [(c.senseContext == (ctx == .int), E_CTX)] c <|
  .ok ctx { c with cpulock := true } false .none

/-- `unl_cpu` and `iunl_cpu`. -/
def unlCpuWith (c : Core) (ctx : Ctx) : Res Core :=
  check [(c.senseContext == (ctx == .int), E_CTX)] c <|
  .ok ctx { c with cpulock := false } false .none

def locCpu (c : Core) : Res Core := locCpuWith c .tsk
def ilocCpu (c : Core) : Res Core := locCpuWith c .int
def unlCpu (c : Core) : Res Core := unlCpuWith c .tsk
def iunlCpu (c : Core) : Res Core := unlCpuWith c .int

def disDsp (c : Core) : Res Core :=
  check [(c.ctxUnl .tsk, E_CTX)] c <|
  .ok .tsk { c with disdsp := true, dspflg := false } false .none

def enaDsp (c : Core) : Res Core :=
  check [(c.ctxUnl .tsk, E_CTX)] c <|
  if c.ipmflg then
    .ok .tsk { c with disdsp := false, dspflg := true } (c.pRuntsk != c.sched.pSchedtsk) .none
  else .ok .tsk { c with disdsp := false } false .none

/-- `valid` is `VALID_INTPRI_CHGIPM`. After a dispatch nothing is left to do: the dispatcher has
made the same test for a task exception. -/
def chgIpm (c : Core) (intpri : PRI) (valid : Bool) : Res Core :=
  check [(c.ctxUnl .tsk, E_CTX), (valid, E_PAR)] c <|
  if intpri = TIPM_ENAALL then
    let c := { c with ipmflg := true, dspflg := c.dspflg || !c.disdsp }
    if c.disdsp = false ∧ c.pRuntsk ≠ c.sched.pSchedtsk then .ok .tsk c true .none
    else .ok .tsk (c.calltex c.runtsk) false .none
  else .ok .tsk { c with ipmflg := false, dspflg := false } false .none

/-- The entry of an interrupt handler. -/
def intEnter (c : Core) : Core := { c with intnest := c.intnest + 1 }

/-- `ret_int`, and in the idle loop of the dispatcher what follows an interrupt. -/
def intExit (c : Core) : Core :=
  let c := { c with intnest := c.intnest - 1, cpulock := false }
  if c.intnest = 0 ∧ c.reqflg then
    let c := { c with reqflg := false }
    match c.pRuntsk with
    | none => c.dispatcher
    | some t =>
      if c.dspflg ∧ c.sched.pSchedtsk ≠ some t then c.dispatcher else c.calltex t
  else c

end Core

end AspKernel
