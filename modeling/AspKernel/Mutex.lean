import AspKernel.Service

namespace AspKernel
set_option autoImplicit true

def MTXPROTO_MASK : ATR := 0x03

namespace Core

/-- `MTX_CEILING`. -/
def mtxCeiling (c : Core) (m : Nat) : Bool := c.wobjatr (.MTX, m) &&& MTXPROTO_MASK == TA_CEILING

def ceilpri (c : Core) (m : Nat) : Nat := (c.mtxcb m).ceilpri

def setLoctsk (c : Core) (m : Nat) (p : Option Nat) : Core :=
  { c with mtxcb := Function.update c.mtxcb m { c.mtxcb m with pLoctsk := p } }

/-- `queue_delete(&(p_mtxcb->mutex_queue))`. -/
def mutexUnlink (c : Core) (m : Nat) : Core := { c with mutexQueue := Links.delete c.mutexQueue m }

def mutexCheckCeilpri (c : Core) (t bpriority : Nat) : Bool :=
  (c.mutexQueue t).all (fun m => !(c.mtxCeiling m && bpriority < c.ceilpri m)) &&
  !((c.tcb t).tstat.waitMtx && c.mtxCeiling (c.tcb t).winfo.wobjcb &&
    bpriority < c.ceilpri (c.tcb t).winfo.wobjcb)

def mutexScanCeilmtx (c : Core) (t : Nat) : Bool := (c.mutexQueue t).any c.mtxCeiling

def mutexCalcPriority (c : Core) (t : Nat) : Nat :=
  (c.mutexQueue t).foldl
    (fun pri m => if c.mtxCeiling m ∧ c.ceilpri m < pri then c.ceilpri m else pri)
    (c.tcb t).bpriority

def mutexRaisePriority (c : Core) (t newpri : Nat) : Core × Bool :=
  if newpri < c.priority t then c.changePriority t newpri true else (c, false)

def mutexDropPriority (c : Core) (t oldpri : Nat) : Core × Bool :=
  if oldpri = c.priority t then
    let newpri := c.mutexCalcPriority t
    if newpri ≠ c.priority t then c.changePriority t newpri true else (c, false)
  else (c, false)

def mutexAcquire (c : Core) (t m : Nat) : Core × Bool :=
  let c := c.setLoctsk m (some t)
  let c := { c with mutexQueue := Function.update c.mutexQueue t (m :: c.mutexQueue t) }
  if c.mtxCeiling m then c.mutexRaisePriority t (c.ceilpri m) else (c, false)

/-- The mutex gets the first task of its wait queue as its holder. -/
def mutexHandOver (c : Core) (t m : Nat) : Core :=
  let c := (((c.queueDelete t).waitDequeueTmevtb t).setWercd t E_OK).setLoctsk m (some t)
  let c := { c with mutexQueue := Function.update c.mutexQueue t (c.mutexQueue t ++ [m]) }
  if c.mtxCeiling m ∧ c.ceilpri m < c.priority t then
    c.setTcb t { c.tcb t with priority := c.ceilpri m }
  else c

def mutexRelease (c : Core) (m : Nat) : Core × Bool :=
  match c.headTsk (.MTX, m) with
  | none => (c.setLoctsk m none, false)
  | some t => (c.mutexHandOver t m).makeNonWait t

/-- The loop of `mutex_release_all`; it has as many steps as the task holds mutexes. -/
def mutexReleaseAllLoop : Nat → Core → Nat → Core × Bool
  | 0, c, _ => (c, false)
  | n + 1, c, t =>
    match c.mutexQueue t with
    | [] => (c, false)
    | m :: _ =>
      let r := (c.mutexUnlink m).mutexRelease m
      let r' := mutexReleaseAllLoop n r.1 t
      (r'.1, r.2 || r'.2)

def mutexReleaseAll (c : Core) (t : Nat) : Core × Bool :=
  mutexReleaseAllLoop (c.mutexQueue t).length c t

/-- `acre_mtx` puts no condition on the attribute, and it keeps the priority as it is given. -/
def acreMtx (cfg : Cfg) (c : Core) (mtxatr : ATR) (ceilpri : PRI) : Res Core :=
  check [(c.ctxUnl .tsk, E_CTX), (validTpri ceilpri, E_PAR)] c <|
  match c.takeWobj cfg.mtx .MTX with
  | none => .err c E_NOID
  | some (m, c) =>
    let c := c.initWobj (.MTX, m) mtxatr
    .value { c with mtxcb := Function.update c.mtxcb m ⟨ceilpri.toNat, none⟩ } (toId m)

def delMtx (cfg : Cfg) (c : Core) (mtxid : ID) : Res Core :=
  check [(c.ctxUnl .tsk, E_CTX), (cfg.mtx.valid mtxid, E_ID)] c <|
  let q := (.MTX, index mtxid)
  if c.noWobj q then .err c E_NOEXS
  else if cfg.mtx.dynamic q.2 then
    let r := c.initWaitQueue q
    .ok .tsk (r.1.freeWobjcb q) r.2 .none
  else .err c E_OBJ

/-- `loc_mtx`, `ploc_mtx` and `tloc_mtx`. -/
def locMtxWith (cfg : Cfg) (c : Core) (mtxid : ID) (m : WaitMode) : Res Core :=
  check [(c.ctxMode m, E_CTX), (cfg.mtx.valid mtxid, E_ID), (m.valid, E_PAR)] c <|
  let i := index mtxid
  if c.noWobj (.MTX, i) then .err c E_NOEXS
  else if c.mtxCeiling i ∧ (c.tcb c.runtsk).bpriority < c.ceilpri i then .err c E_ILUSE
  else if (c.mtxcb i).pLoctsk = none then
    let c := (c.mutexAcquire c.runtsk i).1
    let lost := c.pRuntsk ≠ c.sched.pSchedtsk ∧ c.dspflg
    .ok .tsk { c with assertOk := c.assertOk && !decide lost } false .none
  else if (c.mtxcb i).pLoctsk = some c.runtsk then .err c E_OBJ
  else if m.polls then .err c E_TMOUT
  else .wait (c.waitWobj m (.MTX, i) .local)

def locMtx (cfg : Cfg) (c : Core) (mtxid : ID) : Res Core := locMtxWith cfg c mtxid .fevr
def plocMtx (cfg : Cfg) (c : Core) (mtxid : ID) : Res Core := locMtxWith cfg c mtxid (.pol .tsk)
def tlocMtx (cfg : Cfg) (c : Core) (mtxid : ID) (tmout : TMO) : Res Core :=
  locMtxWith cfg c mtxid (.tmo tmout)

def unlMtx (cfg : Cfg) (c : Core) (mtxid : ID) : Res Core :=
  check [(c.ctxUnl .tsk, E_CTX), (cfg.mtx.valid mtxid, E_ID)] c <|
  let i := index mtxid
  if c.noWobj (.MTX, i) then .err c E_NOEXS
  else if (c.mtxcb i).pLoctsk ≠ some c.runtsk then .err c E_OBJ
  else
    let c := c.mutexUnlink i
    let r := if c.mtxCeiling i then c.mutexDropPriority c.runtsk (c.ceilpri i) else (c, false)
    let r' := r.1.mutexRelease i
    .ok .tsk r'.1 (r.2 || r'.2) .none

/-- `ini_mtx` does not check that the mutex exists. -/
def iniMtx (cfg : Cfg) (c : Core) (mtxid : ID) : Res Core :=
  check [(c.ctxUnl .tsk, E_CTX), (cfg.mtx.valid mtxid, E_ID)] c <|
  let i := index mtxid
  let r := c.initWaitQueue (.MTX, i)
  match (r.1.mtxcb i).pLoctsk with
  | none => .ok .tsk r.1 r.2 .none
  | some t =>
    let c := (r.1.mutexUnlink i).setLoctsk i none
    let r' := if c.mtxCeiling i then c.mutexDropPriority t (c.ceilpri i) else (c, false)
    .ok .tsk r'.1 (r.2 || r'.2) .none

def refMtx (cfg : Cfg) (c : Core) (mtxid : ID) : Res Core :=
  check [(c.ctxUnl .tsk, E_CTX), (cfg.mtx.valid mtxid, E_ID)] c <|
  let i := index mtxid
  if c.noWobj (.MTX, i) then .err c E_NOEXS
  else
    let htskid := match (c.mtxcb i).pLoctsk with
      | some t => toId t
      | none => TSK_NONE
    .ok .tsk c false (.rmtx htskid (c.waitTskid (.MTX, i)))

end Core

end AspKernel
