import AspKernel.Service

namespace AspKernel
set_option autoImplicit true

structure FLGCB where
  iflgptn : FLGPTN
  flgptn : FLGPTN

/-- The condition of `check_flg_cond`. -/
def flgCond (flgptn waiptn : FLGPTN) (wfmode : MODE) : Bool :=
  if wfmode &&& TWF_ORW != 0 then flgptn &&& waiptn != 0 else flgptn &&& waiptn == waiptn

/-- What `check_flg_cond` makes of the flag when the condition holds. -/
def clearFlg (flgatr : ATR) (flgptn : FLGPTN) : FLGPTN := if flgatr.has TA_CLR then 0 else flgptn

def acreFlg (cfg : Cfg) (o : Obj FLGCB) (pk : FLGINIB) : Res (Obj FLGCB) :=
  check [(o.core.ctxUnl .tsk, E_CTX),
    (!pk.flgatr.has (~~~(TA_TPRI ||| TA_WMUL ||| TA_CLR)), E_RSATR)] o <|
  match o.core.takeWobj cfg.flg .FLG with
  | none => .err o E_NOID
  | some (i, c) =>
    .value ((o.setCore (c.initWobj (.FLG, i) pk.flgatr)).setCb i ⟨pk.iflgptn, pk.iflgptn⟩) (toId i)

def delFlg (cfg : Cfg) (o : Obj FLGCB) (flgid : ID) : Res (Obj FLGCB) :=
  check [(o.core.ctxUnl .tsk, E_CTX), (cfg.flg.valid flgid, E_ID)] o <|
  let q := (.FLG, index flgid)
  if o.core.noWobj q then .err o E_NOEXS
  else if cfg.flg.dynamic q.2 then
    let r := o.core.initWaitQueue q
    (o.setCore (r.1.freeWobjcb q)).ok .tsk r.2 .none
  else .err o E_OBJ

/-- The loop of `set_flg` over the waiting tasks: the flag and what is left to dispatch. -/
def setFlgLoop (flgatr : ATR) : List Nat → Core → FLGPTN → Core × FLGPTN × Bool
  | [], c, flgptn => (c, flgptn, false)
  | t :: l, c, flgptn =>
    let w := (c.tcb t).winfo
    if flgCond flgptn w.waiptn w.wfmode then
      let r := ((c.setWinfo t { w with flgptn := flgptn }).queueDelete t).waitComplete t
      let flgptn := clearFlg flgatr flgptn
      if flgatr.has TA_CLR then (r.1, flgptn, r.2)
      else
        let r' := setFlgLoop flgatr l r.1 flgptn
        (r'.1, r'.2.1, r.2 || r'.2.2)
    else setFlgLoop flgatr l c flgptn

/-- `set_flg` and `iset_flg`. -/
def setFlgWith (cfg : Cfg) (o : Obj FLGCB) (ctx : Ctx) (flgid : ID) (setptn : FLGPTN) :
    Res (Obj FLGCB) :=
  check [(o.core.ctxUnl ctx, E_CTX), (cfg.flg.valid flgid, E_ID)] o <|
  let i := index flgid
  let p := o.cb i
  if o.core.noWobj (.FLG, i) then .err o E_NOEXS
  else
    let r := setFlgLoop (o.core.wobjatr (.FLG, i)) (o.core.sched.queue (.wait (.FLG, i))) o.core
      (p.flgptn ||| setptn)
    ((o.setCore r.1).setCb i { p with flgptn := r.2.1 }).ok ctx r.2.2 .none

def setFlg (cfg : Cfg) (o : Obj FLGCB) (flgid : ID) (setptn : FLGPTN) : Res (Obj FLGCB) :=
  setFlgWith cfg o .tsk flgid setptn
def isetFlg (cfg : Cfg) (o : Obj FLGCB) (flgid : ID) (setptn : FLGPTN) : Res (Obj FLGCB) :=
  setFlgWith cfg o .int flgid setptn

def clrFlg (cfg : Cfg) (o : Obj FLGCB) (flgid : ID) (clrptn : FLGPTN) : Res (Obj FLGCB) :=
  check [(o.core.ctxUnl .tsk, E_CTX), (cfg.flg.valid flgid, E_ID)] o <|
  let i := index flgid
  let p := o.cb i
  if o.core.noWobj (.FLG, i) then .err o E_NOEXS
  else (o.setCb i { p with flgptn := p.flgptn &&& clrptn }).ok .tsk false .none

/-- `wai_flg`, `pol_flg` and `twai_flg`. -/
def waiFlgWith (cfg : Cfg) (o : Obj FLGCB) (flgid : ID) (waiptn : FLGPTN) (wfmode : MODE)
    (m : WaitMode) : Res (Obj FLGCB) :=
  check [(o.core.ctxMode m, E_CTX), (cfg.flg.valid flgid, E_ID), (waiptn != 0, E_PAR),
    (wfmode == TWF_ORW || wfmode == TWF_ANDW, E_PAR), (m.valid, E_PAR)] o <|
  let i := index flgid
  let p := o.cb i
  let flgatr := o.core.wobjatr (.FLG, i)
  if o.core.noWobj (.FLG, i) then .err o E_NOEXS
  else if flgatr.has TA_WMUL = false ∧ o.core.headTsk (.FLG, i) ≠ none then .err o E_ILUSE
  else if flgCond p.flgptn waiptn wfmode then
    (o.setCb i { p with flgptn := clearFlg flgatr p.flgptn }).ok .tsk false (.flgptn p.flgptn)
  else if m.polls then .err o E_TMOUT
  else
    let w := { WInfo.local with waiptn := waiptn, wfmode := wfmode }
    .wait (o.setCore (o.core.waitWobj m (.FLG, i) w))

def waiFlg (cfg : Cfg) (o : Obj FLGCB) (flgid : ID) (waiptn : FLGPTN) (wfmode : MODE) :
    Res (Obj FLGCB) := waiFlgWith cfg o flgid waiptn wfmode .fevr
def polFlg (cfg : Cfg) (o : Obj FLGCB) (flgid : ID) (waiptn : FLGPTN) (wfmode : MODE) :
    Res (Obj FLGCB) := waiFlgWith cfg o flgid waiptn wfmode (.pol .tsk)
def twaiFlg (cfg : Cfg) (o : Obj FLGCB) (flgid : ID) (waiptn : FLGPTN) (wfmode : MODE)
    (tmout : TMO) : Res (Obj FLGCB) := waiFlgWith cfg o flgid waiptn wfmode (.tmo tmout)

def iniFlg (cfg : Cfg) (o : Obj FLGCB) (flgid : ID) : Res (Obj FLGCB) :=
  check [(o.core.ctxUnl .tsk, E_CTX), (cfg.flg.valid flgid, E_ID)] o <|
  let i := index flgid
  let p := o.cb i
  if o.core.noWobj (.FLG, i) then .err o E_NOEXS
  else
    let r := o.core.initWaitQueue (.FLG, i)
    ((o.setCore r.1).setCb i { p with flgptn := p.iflgptn }).ok .tsk r.2 .none

def refFlg (cfg : Cfg) (o : Obj FLGCB) (flgid : ID) : Res (Obj FLGCB) :=
  check [(o.core.ctxUnl .tsk, E_CTX), (cfg.flg.valid flgid, E_ID)] o <|
  let i := index flgid
  if o.core.noWobj (.FLG, i) then .err o E_NOEXS
  else o.ok .tsk false (.rflg (o.core.waitTskid (.FLG, i)) (o.cb i).flgptn)

end AspKernel
