import AspKernel.Service

namespace AspKernel
set_option autoImplicit true

/-- `UINT_MAX`. -/
def TMAX_MAXSEM : Nat := 2 ^ 32 - 1

structure SEMCB where
  isemcnt : Nat
  maxsem : Nat
  semcnt : Nat

def acreSem (cfg : Cfg) (o : Obj SEMCB) (pk : SEMINIB) : Res (Obj SEMCB) :=
  check [(o.core.ctxUnl .tsk, E_CTX), (!pk.sematr.has (~~~TA_TPRI), E_RSATR),
    (decide (pk.isemcnt ≤ pk.maxsem), E_PAR),
    (decide (1 ≤ pk.maxsem ∧ pk.maxsem ≤ TMAX_MAXSEM), E_PAR)] o <|
  match o.core.takeWobj cfg.sem .SEM with
  | none => .err o E_NOID
  | some (i, c) =>
    .value ((o.setCore (c.initWobj (.SEM, i) pk.sematr)).setCb i
      ⟨pk.isemcnt, pk.maxsem, pk.isemcnt⟩) (toId i)

def delSem (cfg : Cfg) (o : Obj SEMCB) (semid : ID) : Res (Obj SEMCB) :=
  check [(o.core.ctxUnl .tsk, E_CTX), (cfg.sem.valid semid, E_ID)] o <|
  let q := (.SEM, index semid)
  if o.core.noWobj q then .err o E_NOEXS
  else if cfg.sem.dynamic q.2 then
    let r := o.core.initWaitQueue q
    (o.setCore (r.1.freeWobjcb q)).ok .tsk r.2 .none
  else .err o E_OBJ

/-- `sig_sem` and `isig_sem`. -/
def sigSemWith (cfg : Cfg) (o : Obj SEMCB) (ctx : Ctx) (semid : ID) : Res (Obj SEMCB) :=
  check [(o.core.ctxUnl ctx, E_CTX), (cfg.sem.valid semid, E_ID)] o <|
  let i := index semid
  let p := o.cb i
  if o.core.noWobj (.SEM, i) then .err o E_NOEXS
  else
    match o.core.headTsk (.SEM, i) with
    | some t =>
      let r := (o.core.queueDelete t).waitComplete t
      (o.setCore r.1).ok ctx r.2 .none
    | none =>
      if p.semcnt < p.maxsem then (o.setCb i { p with semcnt := p.semcnt + 1 }).ok ctx false .none
      else .err o E_QOVR

def sigSem (cfg : Cfg) (o : Obj SEMCB) (semid : ID) : Res (Obj SEMCB) := sigSemWith cfg o .tsk semid
def isigSem (cfg : Cfg) (o : Obj SEMCB) (semid : ID) : Res (Obj SEMCB) := sigSemWith cfg o .int semid

/-- `wai_sem`, `pol_sem` and `twai_sem`. -/
def waiSemWith (cfg : Cfg) (o : Obj SEMCB) (semid : ID) (m : WaitMode) : Res (Obj SEMCB) :=
  check [(o.core.ctxMode m, E_CTX), (cfg.sem.valid semid, E_ID), (m.valid, E_PAR)] o <|
  let i := index semid
  let p := o.cb i
  if o.core.noWobj (.SEM, i) then .err o E_NOEXS
  else if 1 ≤ p.semcnt then (o.setCb i { p with semcnt := p.semcnt - 1 }).ok .tsk false .none
  else if m.polls then .err o E_TMOUT
  else .wait (o.setCore (o.core.waitWobj m (.SEM, i) .local))

def waiSem (cfg : Cfg) (o : Obj SEMCB) (semid : ID) : Res (Obj SEMCB) := waiSemWith cfg o semid .fevr
def polSem (cfg : Cfg) (o : Obj SEMCB) (semid : ID) : Res (Obj SEMCB) :=
  waiSemWith cfg o semid (.pol .tsk)
def twaiSem (cfg : Cfg) (o : Obj SEMCB) (semid : ID) (tmout : TMO) : Res (Obj SEMCB) :=
  waiSemWith cfg o semid (.tmo tmout)

def iniSem (cfg : Cfg) (o : Obj SEMCB) (semid : ID) : Res (Obj SEMCB) :=
  check [(o.core.ctxUnl .tsk, E_CTX), (cfg.sem.valid semid, E_ID)] o <|
  let i := index semid
  let p := o.cb i
  if o.core.noWobj (.SEM, i) then .err o E_NOEXS
  else
    let r := o.core.initWaitQueue (.SEM, i)
    ((o.setCore r.1).setCb i { p with semcnt := p.isemcnt }).ok .tsk r.2 .none

def refSem (cfg : Cfg) (o : Obj SEMCB) (semid : ID) : Res (Obj SEMCB) :=
  check [(o.core.ctxUnl .tsk, E_CTX), (cfg.sem.valid semid, E_ID)] o <|
  let i := index semid
  if o.core.noWobj (.SEM, i) then .err o E_NOEXS
  else o.ok .tsk false (.rsem (o.core.waitTskid (.SEM, i)) (o.cb i).semcnt)

end AspKernel
