import AspKernel.Service

namespace AspKernel
set_option autoImplicit true

namespace Core

/-- The state that `ref_tsk` stores. -/
def refState (c : Core) (t : Nat) : TTS :=
  let s := (c.tcb t).tstat
  if s.isDormant then .DMT
  else if s.suspended then (if s.waiting then .WAS else .SUS)
  else if s.waiting then .WAI
  else if c.pRuntsk = some t then .RUN
  else .RDY

/-- `EXT_TSKPRI`. -/
def extTskpri (pri : Nat) : PRI := pri + TMIN_TPRI

def refTsk (cfg : Cfg) (c : Core) (tskid : ID) : Res Core :=
  check [(c.ctxUnl .tsk, E_CTX), (cfg.tsk.valid tskid || tskid == TSK_SELF, E_ID)] c <|
  let t := c.tcbSelf tskid
  let p := c.tcb t
  let active := !p.tstat.isDormant
  let waiting := active && p.tstat.waiting
  if c.noTsk t then .err c E_NOEXS
  else .ok .tsk c false (.rtsk {
    tskstat := c.refState t
    tskpri := if active then some (extTskpri p.priority) else none
    tskbpri := if active then some (extTskpri p.bpriority) else none
    tskwait := if waiting then some p.tstat.factor else none
    wobjid := if waiting && p.tstat.waitWobj then some (toId p.winfo.wobjcb) else none
    lefttmo :=
      if waiting then
        match p.winfo.tmevtb with
        | some e => some (c.tm.lefttim e)
        | none => some TMO_FEVR
      else none
    actcnt := if p.actque then 1 else 0
    wupcnt := if active then some (if p.wupque then 1 else 0) else none })

end Core

end AspKernel
