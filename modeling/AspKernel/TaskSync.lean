import AspKernel.Service

namespace AspKernel
set_option autoImplicit true

namespace Core

/-- `slp_tsk` and `tslp_tsk`. -/
def slpTskWith (c : Core) (m : WaitMode) : Res Core :=
  check [(c.canDispatch, E_CTX), (m.valid, E_PAR)] c <|
  let p := c.tcb c.runtsk
  if p.wupque then .ok .tsk (c.setTcb c.runtsk { p with wupque := false }) false .none
  else if m.polls then .err c E_TMOUT
  else
    let c := c.setWaiting .SLP
    match m with
    | .tmo tmout => .wait (c.makeWaitTmout .local tmout)
    | _ => .wait (c.makeWait .local)

def slpTsk (c : Core) : Res Core := slpTskWith c .fevr
def tslpTsk (c : Core) (tmout : TMO) : Res Core := slpTskWith c (.tmo tmout)

/-- `wup_tsk` and `iwup_tsk`. -/
def wupTskWith (cfg : Cfg) (c : Core) (ctx : Ctx) (tskid : ID) : Res Core :=
  check [(c.ctxUnl ctx, E_CTX), (cfg.tsk.valid tskid || ctx == .tsk && tskid == TSK_SELF, E_ID)] c <|
  let t := c.tcbSelf tskid
  let p := c.tcb t
  if c.noTsk t then .err c E_NOEXS
  else if p.tstat.isDormant then .err c E_OBJ
  else if p.tstat.waitSlp then
    let r := c.waitComplete t
    .ok ctx r.1 r.2 .none
  else if p.wupque then .err c E_QOVR
  else .ok ctx (c.setTcb t { p with wupque := true }) false .none

def wupTsk (cfg : Cfg) (c : Core) (tskid : ID) : Res Core := wupTskWith cfg c .tsk tskid
def iwupTsk (cfg : Cfg) (c : Core) (tskid : ID) : Res Core := wupTskWith cfg c .int tskid

def canWup (cfg : Cfg) (c : Core) (tskid : ID) : Res Core :=
  check [(c.ctxUnl .tsk, E_CTX), (cfg.tsk.valid tskid || tskid == TSK_SELF, E_ID)] c <|
  let t := c.tcbSelf tskid
  let p := c.tcb t
  if c.noTsk t then .err c E_NOEXS
  else if p.tstat.isDormant then .err c E_OBJ
  else .value (c.setTcb t { p with wupque := false }) (if p.wupque then 1 else 0)

/-- `rel_wai` and `irel_wai`. -/
def relWaiWith (cfg : Cfg) (c : Core) (ctx : Ctx) (tskid : ID) : Res Core :=
  check [(c.ctxUnl ctx, E_CTX), (cfg.tsk.valid tskid, E_ID)] c <|
  let t := index tskid
  if c.noTsk t then .err c E_NOEXS
  else if (c.tcb t).tstat.waiting = false then .err c E_OBJ
  else
    let r := c.waitRelease t
    .ok ctx r.1 r.2 .none

def relWai (cfg : Cfg) (c : Core) (tskid : ID) : Res Core := relWaiWith cfg c .tsk tskid
def irelWai (cfg : Cfg) (c : Core) (tskid : ID) : Res Core := relWaiWith cfg c .int tskid

def susTsk (cfg : Cfg) (c : Core) (tskid : ID) : Res Core :=
  check [(c.ctxUnl .tsk, E_CTX), (cfg.tsk.valid tskid || tskid == TSK_SELF, E_ID)] c <|
  let t := c.tcbSelf tskid
  let p := c.tcb t
  if c.pRuntsk = some t ∧ c.dspflg = false then .err c E_CTX
  else if c.noTsk t then .err c E_NOEXS
  else if p.tstat.isDormant then .err c E_OBJ
  else if p.tstat.runnable then
    let r := (c.setTcb t { p with tstat := .SUSPENDED }).makeNonRunnable t
    .ok .tsk r.1 r.2 .none
  else if p.tstat.suspended then .err c E_QOVR
  else .ok .tsk (c.setTcb t { p with tstat := { p.tstat with suspended := true } }) false .none

def rsmTsk (cfg : Cfg) (c : Core) (tskid : ID) : Res Core :=
  check [(c.ctxUnl .tsk, E_CTX), (cfg.tsk.valid tskid, E_ID)] c <|
  let t := index tskid
  let p := c.tcb t
  if c.noTsk t then .err c E_NOEXS
  else if p.tstat.suspended = false then .err c E_OBJ
  else if p.tstat.waiting = false then
    let r := (c.setTcb t { p with tstat := .RUNNABLE }).makeRunnable t
    .ok .tsk r.1 r.2 .none
  else .ok .tsk (c.setTcb t { p with tstat := { p.tstat with suspended := false } }) false .none

def dlyTsk (c : Core) (dlytim : RELTIM) : Res Core :=
  check [(c.canDispatch, E_CTX), (decide (dlytim ≤ TMAX_RELTIM), E_PAR)] c <|
  .wait ((c.setWaiting .DLY).makeWaitTmevtb .local dlytim .waitTmoutOk)

end Core

end AspKernel
