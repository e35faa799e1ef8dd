import AspKernel.Service

namespace AspKernel
set_option autoImplicit true

namespace Core

/-- `texrtn` is the routine of the packet, `NULL` to cancel the definition. -/
def defTex (cfg : Cfg) (c : Core) (tskid : ID) (texatr : ATR) (texrtn : Addr) : Res Core :=
  check [(c.ctxUnl .tsk, E_CTX), (cfg.tsk.valid tskid || tskid == TSK_SELF, E_ID),
    (!texatr.has (~~~TA_NULL), E_RSATR),
    (texrtn == 0 || cfg.target.funcAligned texrtn, E_PAR),
    (texrtn == 0 || cfg.target.funcNonnull texrtn, E_PAR)] c <|
  let t := c.tcbSelf tskid
  let p := c.tcb t
  if c.noTsk t then .err c E_NOEXS
  else if cfg.tsk.dynamic t = false then .err c E_OBJ
  else if texrtn ≠ 0 then
    if p.tinib.texrtn then .err c E_OBJ
    else .ok .tsk (c.setTcb t { p with tinib := { p.tinib with texrtn := true } }) false .none
  else if p.tinib.texrtn then
    let p := { p with tinib := { p.tinib with texrtn := false }, enatex := false, texptn := 0 }
    .ok .tsk (c.setTcb t p) false .none
  else .err c E_OBJ

def rasTex (cfg : Cfg) (c : Core) (tskid : ID) (rasptn : TEXPTN) : Res Core :=
  check [(c.ctxUnl .tsk, E_CTX), (cfg.tsk.valid tskid || tskid == TSK_SELF, E_ID),
    (rasptn != 0, E_PAR)] c <|
  let t := c.tcbSelf tskid
  let p := c.tcb t
  if c.noTsk t then .err c E_NOEXS
  else if p.tstat.isDormant ∨ p.tinib.texrtn = false then .err c E_OBJ
  else
    let c := c.setTcb t { p with
      texptn := p.texptn ||| rasptn
      texraised := p.texraised ||| rasptn }
    if c.pRuntsk = some t ∧ p.enatex ∧ c.ipmflg then .ok .tsk (c.callTexrtn t) false .none
    else .ok .tsk c false .none

def irasTex (cfg : Cfg) (c : Core) (tskid : ID) (rasptn : TEXPTN) : Res Core :=
  check [(c.ctxUnl .int, E_CTX), (cfg.tsk.valid tskid, E_ID), (rasptn != 0, E_PAR)] c <|
  let t := index tskid
  let p := c.tcb t
  if c.noTsk t then .err c E_NOEXS
  else if p.tstat.isDormant ∨ p.tinib.texrtn = false then .err c E_OBJ
  else
    let c := c.setTcb t { p with
      texptn := p.texptn ||| rasptn
      texraised := p.texraised ||| rasptn }
    .ok .int c (decide (c.pRuntsk = some t) && p.enatex && c.ipmflg) .none

def disTex (c : Core) : Res Core :=
  check [(c.ctxUnl .tsk, E_CTX)] c <|
  let p := c.tcb c.runtsk
  if p.tinib.texrtn = false then .err c E_OBJ
  else .ok .tsk (c.setTcb c.runtsk { p with enatex := false }) false .none

def enaTex (c : Core) : Res Core :=
  check [(c.ctxUnl .tsk, E_CTX)] c <|
  let p := c.tcb c.runtsk
  if p.tinib.texrtn = false then .err c E_OBJ
  else .ok .tsk ((c.setTcb c.runtsk { p with enatex := true }).calltex c.runtsk) false .none

def refTex (cfg : Cfg) (c : Core) (tskid : ID) : Res Core :=
  check [(c.ctxUnl .tsk, E_CTX), (cfg.tsk.valid tskid || tskid == TSK_SELF, E_ID)] c <|
  let t := c.tcbSelf tskid
  let p := c.tcb t
  if c.noTsk t then .err c E_NOEXS
  else if p.tstat.isDormant ∨ p.tinib.texrtn = false then .err c E_OBJ
  else .ok .tsk c false (.rtex p.enatex p.texptn)

end Core

end AspKernel
