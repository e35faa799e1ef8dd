import AspKernel.Mutex

namespace AspKernel
set_option autoImplicit true

/-- The packet of `acre_tsk`. -/
structure T_CTSK where
  tskatr : ATR
  task : Addr
  itskpri : PRI
  stksz : BitVec 32
  stk : Addr

namespace Core

/-- `INDEX_TSK` of a new task, which is taken from `free_tcb`. -/
def takeTcb (c : Core) : Option (Nat × Core) :=
  match c.freeTcb with
  | [] => none
  | t :: l => some (t, { c with freeTcb := l })

/-- The control block of a created task. -/
def initTcb (c : Core) (t : Nat) (tinib : TINIB) : Core :=
  let c := (c.setTcb t { c.tcb t with tinib := tinib, actque := false }).makeDormant t
  { c with mutexQueue := Function.update c.mutexQueue t [] }

/-- `mem` is what `kernel_malloc` returns. -/
def acreTsk (cfg : Cfg) (c : Core) (pk : T_CTSK) (mem : Addr) : Res Core :=
  check [(c.ctxUnl .tsk, E_CTX),
    (!pk.tskatr.has (~~~(TA_ACT ||| TARGET_TSKATR)), E_RSATR),
    (cfg.target.funcAligned pk.task, E_PAR), (cfg.target.funcNonnull pk.task, E_PAR),
    (validTpri pk.itskpri, E_PAR), (decide (cfg.target.minStksz ≤ pk.stksz), E_PAR),
    (pk.stk == 0 || cfg.target.stkszAligned pk.stksz, E_PAR),
    (pk.stk == 0 || cfg.target.stackAligned pk.stk, E_PAR)] c <|
  match c.takeTcb with
  | none => .err c E_NOID
  | some (t, c') =>
    let stksz := if pk.stk = 0 then cfg.target.roundStk pk.stksz else pk.stksz
    let stk := if pk.stk = 0 then mem else pk.stk
    let tskatr := if pk.stk = 0 then pk.tskatr ||| TA_MEMALLOC else pk.tskatr
    if stk = 0 then .err c E_NOMEM
    else
      let c := if pk.stk = 0 then c'.kernelMalloc stksz mem else c'
      let c := c.initTcb t ⟨tskatr, intPriority pk.itskpri, false, stksz, stk⟩
      let r := if tskatr.has TA_ACT then c.makeActive t else (c, false)
      ⟨r.1, some (toId t), r.2, .none⟩

def delTsk (cfg : Cfg) (c : Core) (tskid : ID) : Res Core :=
  check [(c.ctxUnl .tsk, E_CTX), (cfg.tsk.valid tskid, E_ID)] c <|
  let t := index tskid
  let p := c.tcb t
  if c.noTsk t then .err c E_NOEXS
  else if cfg.tsk.dynamic t ∧ p.tstat.isDormant then
    let c := if p.tinib.tskatr.has TA_MEMALLOC then c.kernelFree p.tinib.stk else c
    let c := c.setTcb t { p with tinib := { p.tinib with tskatr := TA_NOEXS } }
    .ok .tsk { c with freeTcb := c.freeTcb ++ [t] } false .none
  else .err c E_OBJ

/-- `act_tsk` and `iact_tsk`. -/
def actTskWith (cfg : Cfg) (c : Core) (ctx : Ctx) (tskid : ID) : Res Core :=
  check [(c.ctxUnl ctx, E_CTX), (cfg.tsk.valid tskid || ctx == .tsk && tskid == TSK_SELF, E_ID)] c <|
  let t := c.tcbSelf tskid
  let p := c.tcb t
  if c.noTsk t then .err c E_NOEXS
  else if p.tstat.isDormant then
    let r := c.makeActive t
    .ok ctx r.1 r.2 .none
  else if p.actque then .err c E_QOVR
  else .ok ctx (c.setTcb t { p with actque := true }) false .none

def actTsk (cfg : Cfg) (c : Core) (tskid : ID) : Res Core := actTskWith cfg c .tsk tskid
def iactTsk (cfg : Cfg) (c : Core) (tskid : ID) : Res Core := actTskWith cfg c .int tskid

def canAct (cfg : Cfg) (c : Core) (tskid : ID) : Res Core :=
  check [(c.ctxUnl .tsk, E_CTX), (cfg.tsk.valid tskid || tskid == TSK_SELF, E_ID)] c <|
  let t := c.tcbSelf tskid
  let p := c.tcb t
  if c.noTsk t then .err c E_NOEXS
  else .value (c.setTcb t { p with actque := false }) (if p.actque then 1 else 0)

/-- What `ext_tsk` and `ter_tsk` do once the task has left its queue: the release of its mutexes
and, where an activation is queued, a new start. -/
def terminate (c : Core) (t : Nat) : Core × Bool :=
  let r := if c.mutexQueue t = [] then (c, false) else c.mutexReleaseAll t
  let c := r.1.makeDormant t
  if (c.tcb t).actque then
    let r' := (c.setTcb t { c.tcb t with actque := false }).makeActive t
    (r'.1, r.2 || r'.2)
  else (c, r.2)

def extTsk (c : Core) : Res Core :=
  check [(!c.senseContext, E_CTX)] c <|
  let c := { c with disdsp := false, ipmflg := true, dspflg := true, cpulock := false }
  let c := (c.makeNonRunnable c.runtsk).1
  .wait (c.terminate c.runtsk).1

def terTsk (cfg : Cfg) (c : Core) (tskid : ID) : Res Core :=
  let t := index tskid
  check [(c.ctxUnl .tsk, E_CTX), (cfg.tsk.valid tskid, E_ID), (c.pRuntsk != some t, E_ILUSE)] c <|
  let p := c.tcb t
  if c.noTsk t then .err c E_NOEXS
  else if p.tstat.isDormant then .err c E_OBJ
  else
    let c :=
      if p.tstat.runnable then (c.makeNonRunnable t).1
      else if p.tstat.waiting then (c.waitDequeueWobj t).waitDequeueTmevtb t
      else c
    let r := c.terminate t
    .ok .tsk r.1 r.2 .none

def chgPri (cfg : Cfg) (c : Core) (tskid : ID) (tskpri : PRI) : Res Core :=
  check [(c.ctxUnl .tsk, E_CTX), (cfg.tsk.valid tskid || tskid == TSK_SELF, E_ID),
    (validTpri tskpri || tskpri == TPRI_INI, E_PAR)] c <|
  let t := c.tcbSelf tskid
  let p := c.tcb t
  let newbpri := if tskpri = TPRI_INI then p.tinib.ipriority else intPriority tskpri
  if c.noTsk t then .err c E_NOEXS
  else if p.tstat.isDormant then .err c E_OBJ
  else if (c.mutexQueue t ≠ [] ∨ p.tstat.waitMtx) ∧ c.mutexCheckCeilpri t newbpri = false then
    .err c E_ILUSE
  else
    let c := c.setTcb t { p with bpriority := newbpri }
    let r :=
      if c.mutexQueue t = [] ∨ c.mutexScanCeilmtx t = false then c.changePriority t newbpri false
      else (c, false)
    .ok .tsk r.1 r.2 .none

def getPri (cfg : Cfg) (c : Core) (tskid : ID) : Res Core :=
  check [(c.ctxUnl .tsk, E_CTX), (cfg.tsk.valid tskid || tskid == TSK_SELF, E_ID)] c <|
  let t := c.tcbSelf tskid
  if c.noTsk t then .err c E_NOEXS
  else if (c.tcb t).tstat.isDormant then .err c E_OBJ
  else .ok .tsk c false (.tskpri (toId (c.priority t)))

end Core

end AspKernel
