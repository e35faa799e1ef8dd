import AspKernel.Service

namespace AspKernel
set_option autoImplicit true

namespace Core

def setCyc (c : Core) (i : Nat) (p : CYCCB) : Core :=
  { c with cyccb := Function.update c.cyccb i p }

def tmevtbEnqueueCyc (c : Core) (i : Nat) (evttim : EVTTIM) : Core :=
  { c.setCyc i { c.cyccb i with evttim := evttim } with
    tm := c.tm.tmevtbEnqueueEvttim (.cyc i) evttim .callCychdr }

/-- `base_time + p_cyccb->p_cycinib->cycphs`. -/
def cycStart (c : Core) (i : Nat) : EVTTIM := c.tm.baseTime + (c.cyccb i).cycphs

def noCyc (c : Core) (i : Nat) : Bool := (c.cyccb i).cycatr == TA_NOEXS

/-- `cychdr` is the handler of the packet. -/
def acreCyc (cfg : Cfg) (c : Core) (pk : CYCINIB) (cychdr : Addr) : Res Core :=
  check [(c.ctxUnl .tsk, E_CTX), (!pk.cycatr.has (~~~TA_STA), E_RSATR),
    (cfg.target.funcAligned cychdr, E_PAR), (cfg.target.funcNonnull cychdr, E_PAR),
    (decide (0 < pk.cyctim ∧ pk.cyctim ≤ TMAX_RELTIM), E_PAR),
    (decide (pk.cycphs ≤ TMAX_RELTIM), E_PAR)] c <|
  match c.freeCyccb with
  | [] => .err c E_NOID
  | i :: l =>
    if cfg.cyc.tmax = 0 then .err c E_NOID
    else
      let sta := pk.cycatr.has TA_STA
      let c := { c with freeCyccb := l }
      let c := c.setCyc i ⟨pk.cycatr, pk.cyctim, pk.cycphs, sta, (c.cyccb i).evttim⟩
      .value (if sta then c.tmevtbEnqueueCyc i (c.cycStart i) else c) (toId i)

/-- The handler is stopped where it is started. -/
def stopCyc (c : Core) (i : Nat) : Core :=
  if (c.cyccb i).cycsta then
    { c.setCyc i { c.cyccb i with cycsta := false } with tm := c.tm.tmevtbDequeue (.cyc i) }
  else c

def delCyc (cfg : Cfg) (c : Core) (cycid : ID) : Res Core :=
  check [(c.ctxUnl .tsk, E_CTX), (cfg.cyc.valid cycid, E_ID)] c <|
  let i := index cycid
  if c.noCyc i then .err c E_NOEXS
  else if cfg.cyc.dynamic i then
    let c := c.stopCyc i
    let c := c.setCyc i { c.cyccb i with cycatr := TA_NOEXS }
    .ok .tsk { c with freeCyccb := c.freeCyccb ++ [i] } false .none
  else .err c E_OBJ

def staCyc (cfg : Cfg) (c : Core) (cycid : ID) : Res Core :=
  check [(c.ctxUnl .tsk, E_CTX), (cfg.cyc.valid cycid, E_ID)] c <|
  let i := index cycid
  if c.noCyc i then .err c E_NOEXS
  else
    let c :=
      if (c.cyccb i).cycsta then { c with tm := c.tm.tmevtbDequeue (.cyc i) }
      else c.setCyc i { c.cyccb i with cycsta := true }
    .ok .tsk (c.tmevtbEnqueueCyc i (c.cycStart i)) false .none

def stpCyc (cfg : Cfg) (c : Core) (cycid : ID) : Res Core :=
  check [(c.ctxUnl .tsk, E_CTX), (cfg.cyc.valid cycid, E_ID)] c <|
  let i := index cycid
  if c.noCyc i then .err c E_NOEXS else .ok .tsk (c.stopCyc i) false .none

/-- The time that is left is stored for a started handler only. -/
def refCyc (cfg : Cfg) (c : Core) (cycid : ID) : Res Core :=
  check [(c.ctxUnl .tsk, E_CTX), (cfg.cyc.valid cycid, E_ID)] c <|
  let i := index cycid
  if c.noCyc i then .err c E_NOEXS
  else .ok .tsk c false
    (.rcyc (if (c.cyccb i).cycsta then some (c.tm.lefttim (.cyc i)) else none))

/-- `call_cychdr` up to the call of the handler. -/
def callCychdr (c : Core) (i : Nat) : Core :=
  c.tmevtbEnqueueCyc i ((c.cyccb i).evttim + (c.cyccb i).cyctim)

end Core

end AspKernel
