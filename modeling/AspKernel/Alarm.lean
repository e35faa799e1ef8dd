import AspKernel.Service

namespace AspKernel
set_option autoImplicit true

namespace Core

def setAlm (c : Core) (i : Nat) (p : ALMCB) : Core :=
  { c with almcb := Function.update c.almcb i p }

def noAlm (c : Core) (i : Nat) : Bool := (c.almcb i).almatr == TA_NOEXS

/-- `almhdr` is the handler of the packet. -/
def acreAlm (cfg : Cfg) (c : Core) (almatr : ATR) (almhdr : Addr) : Res Core :=
  check [(c.ctxUnl .tsk, E_CTX), (!almatr.has (~~~TA_NULL), E_RSATR),
    (cfg.target.funcAligned almhdr, E_PAR), (cfg.target.funcNonnull almhdr, E_PAR)] c <|
  match c.freeAlmcb with
  | [] => .err c E_NOID
  | i :: l =>
    if cfg.alm.tmax = 0 then .err c E_NOID
    else .value (({ c with freeAlmcb := l } : Core).setAlm i ⟨almatr, false⟩) (toId i)

/-- The handler is stopped where it is started. -/
def stopAlm (c : Core) (i : Nat) : Core :=
  if (c.almcb i).almsta then
    { c.setAlm i { c.almcb i with almsta := false } with tm := c.tm.tmevtbDequeue (.alm i) }
  else c

def delAlm (cfg : Cfg) (c : Core) (almid : ID) : Res Core :=
  check [(c.ctxUnl .tsk, E_CTX), (cfg.alm.valid almid, E_ID)] c <|
  let i := index almid
  if c.noAlm i then .err c E_NOEXS
  else if cfg.alm.dynamic i then
    let c := c.stopAlm i
    let c := c.setAlm i { c.almcb i with almatr := TA_NOEXS }
    .ok .tsk { c with freeAlmcb := c.freeAlmcb ++ [i] } false .none
  else .err c E_OBJ

/-- `sta_alm` and `ista_alm`. -/
def staAlmWith (cfg : Cfg) (c : Core) (ctx : Ctx) (almid : ID) (almtim : RELTIM) : Res Core :=
  check [(c.ctxUnl ctx, E_CTX), (cfg.alm.valid almid, E_ID),
    (decide (almtim ≤ TMAX_RELTIM), E_PAR)] c <|
  let i := index almid
  if c.noAlm i then .err c E_NOEXS
  else
    let c :=
      if (c.almcb i).almsta then { c with tm := c.tm.tmevtbDequeue (.alm i) }
      else c.setAlm i { c.almcb i with almsta := true }
    .ok ctx { c with tm := c.tm.tmevtbEnqueue (.alm i) almtim .callAlmhdr } false .none

def staAlm (cfg : Cfg) (c : Core) (almid : ID) (almtim : RELTIM) : Res Core :=
  staAlmWith cfg c .tsk almid almtim
def istaAlm (cfg : Cfg) (c : Core) (almid : ID) (almtim : RELTIM) : Res Core :=
  staAlmWith cfg c .int almid almtim

/-- `stp_alm` and `istp_alm`. -/
def stpAlmWith (cfg : Cfg) (c : Core) (ctx : Ctx) (almid : ID) : Res Core :=
  check [(c.ctxUnl ctx, E_CTX), (cfg.alm.valid almid, E_ID)] c <|
  let i := index almid
  if c.noAlm i then .err c E_NOEXS else .ok ctx (c.stopAlm i) false .none

def stpAlm (cfg : Cfg) (c : Core) (almid : ID) : Res Core := stpAlmWith cfg c .tsk almid
def istpAlm (cfg : Cfg) (c : Core) (almid : ID) : Res Core := stpAlmWith cfg c .int almid

/-- The time that is left is stored for a started handler only. -/
def refAlm (cfg : Cfg) (c : Core) (almid : ID) : Res Core :=
  check [(c.ctxUnl .tsk, E_CTX), (cfg.alm.valid almid, E_ID)] c <|
  let i := index almid
  if c.noAlm i then .err c E_NOEXS
  else .ok .tsk c false
    (.ralm (if (c.almcb i).almsta then some (c.tm.lefttim (.alm i)) else none))

/-- `call_almhdr` up to the call of the handler. -/
def callAlmhdr (c : Core) (i : Nat) : Core := c.setAlm i { c.almcb i with almsta := false }

end Core

end AspKernel
