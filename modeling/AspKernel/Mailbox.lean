import AspKernel.Service

namespace AspKernel
set_option autoImplicit true

/-- The header of a message in the memory of the application. -/
structure T_MSG where
  pkNext : Addr
  msgpri : PRI

structure MBXCB where
  maxmpri : PRI
  pkHead : Addr
  pkLast : Addr

/-- The mailboxes and the message headers that they link. -/
structure MbxObj extends Obj MBXCB where
  msg : Addr → T_MSG

namespace MbxObj

def setCore (o : MbxObj) (c : Core) : MbxObj := { o with core := c }
def setCb (o : MbxObj) (i : Nat) (p : MBXCB) : MbxObj := { o with cb := Function.update o.cb i p }
def setNext (o : MbxObj) (a next : Addr) : MbxObj :=
  { o with msg := Function.update o.msg a { o.msg a with pkNext := next } }

def ok (o : MbxObj) (ctx : Ctx) (dspreq : Bool) (out : Out) : Res MbxObj :=
  (Res.ok ctx o.core dspreq out).map o.setCore

end MbxObj

/-- The search of `enqueue_msg_pri`: the message after which the new one comes (`NULL` for the
head), in at most `n` steps. -/
def searchMsg (msg : Addr → T_MSG) (head : Addr) (msgpri : PRI) : Nat → Addr → Addr
  | 0, prev => prev
  | n + 1, prev =>
    let next := if prev = 0 then head else (msg prev).pkNext
    if next = 0 then prev
    else if (msg next).msgpri > msgpri then prev
    else searchMsg msg head msgpri n next

/-- `n` bounds the number of messages in the mailbox. -/
def enqueueMsgPri (n : Nat) (o : MbxObj) (i : Nat) (pkMsg : Addr) : MbxObj :=
  let p := o.cb i
  let prev := searchMsg o.msg p.pkHead (o.msg pkMsg).msgpri n 0
  if prev = 0 then (o.setNext pkMsg p.pkHead).setCb i { p with pkHead := pkMsg }
  else (o.setNext pkMsg (o.msg prev).pkNext).setNext prev pkMsg

/-- `mprihd` is the area of the packet, which this kernel does not support. -/
def acreMbx (cfg : Cfg) (o : MbxObj) (pk : MBXINIB) (mprihd : Addr) : Res MbxObj :=
  check [(o.core.ctxUnl .tsk, E_CTX), (!pk.mbxatr.has (~~~(TA_TPRI ||| TA_MPRI)), E_RSATR),
    (validMpri pk.maxmpri, E_PAR), (mprihd == 0, E_NOSPT)] o <|
  match o.core.takeWobj cfg.mbx .MBX with
  | none => .err o E_NOID
  | some (i, c) =>
    .value ((o.setCore (c.initWobj (.MBX, i) pk.mbxatr)).setCb i
      ⟨pk.maxmpri, 0, (o.cb i).pkLast⟩) (toId i)

def delMbx (cfg : Cfg) (o : MbxObj) (mbxid : ID) : Res MbxObj :=
  check [(o.core.ctxUnl .tsk, E_CTX), (cfg.mbx.valid mbxid, E_ID)] o <|
  let q := (.MBX, index mbxid)
  if o.core.noWobj q then .err o E_NOEXS
  else if cfg.mbx.dynamic q.2 then
    let r := o.core.initWaitQueue q
    (o.setCore (r.1.freeWobjcb q)).ok .tsk r.2 .none
  else .err o E_OBJ

/-- A message queue has no more messages than there are addresses. -/
def sndMbx (cfg : Cfg) (o : MbxObj) (mbxid : ID) (pkMsg : Addr) : Res MbxObj :=
  check [(o.core.ctxUnl .tsk, E_CTX), (cfg.mbx.valid mbxid, E_ID)] o <|
  let i := index mbxid
  let p := o.cb i
  let mbxatr := o.core.wobjatr (.MBX, i)
  let msgpri := (o.msg pkMsg).msgpri
  if o.core.noWobj (.MBX, i) then .err o E_NOEXS
  else if mbxatr.has TA_MPRI ∧ ¬(TMIN_MPRI ≤ msgpri ∧ msgpri ≤ p.maxmpri) then .err o E_PAR
  else
    match o.core.headTsk (.MBX, i) with
    | some t =>
      let w := { (o.core.tcb t).winfo with pkMsg := pkMsg }
      let r := ((o.core.queueDelete t).setWinfo t w).waitComplete t
      (o.setCore r.1).ok .tsk r.2 .none
    | none =>
      if mbxatr.has TA_MPRI then (enqueueMsgPri (2 ^ 32) o i pkMsg).ok .tsk false .none
      else
        let o := o.setNext pkMsg 0
        let o := if p.pkHead ≠ 0 then o.setNext p.pkLast pkMsg else o
        let head := if p.pkHead ≠ 0 then p.pkHead else pkMsg
        (o.setCb i { p with pkHead := head, pkLast := pkMsg }).ok .tsk false .none

/-- `rcv_mbx`, `prcv_mbx` and `trcv_mbx`. -/
def rcvMbxWith (cfg : Cfg) (o : MbxObj) (mbxid : ID) (m : WaitMode) : Res MbxObj :=
  check [(o.core.ctxMode m, E_CTX), (cfg.mbx.valid mbxid, E_ID), (m.valid, E_PAR)] o <|
  let i := index mbxid
  let p := o.cb i
  if o.core.noWobj (.MBX, i) then .err o E_NOEXS
  else if p.pkHead ≠ 0 then
    (o.setCb i { p with pkHead := (o.msg p.pkHead).pkNext }).ok .tsk false (.msg p.pkHead)
  else if m.polls then .err o E_TMOUT
  else .wait (o.setCore (o.core.waitWobj m (.MBX, i) .local))

def rcvMbx (cfg : Cfg) (o : MbxObj) (mbxid : ID) : Res MbxObj := rcvMbxWith cfg o mbxid .fevr
def prcvMbx (cfg : Cfg) (o : MbxObj) (mbxid : ID) : Res MbxObj := rcvMbxWith cfg o mbxid (.pol .tsk)
def trcvMbx (cfg : Cfg) (o : MbxObj) (mbxid : ID) (tmout : TMO) : Res MbxObj :=
  rcvMbxWith cfg o mbxid (.tmo tmout)

def iniMbx (cfg : Cfg) (o : MbxObj) (mbxid : ID) : Res MbxObj :=
  check [(o.core.ctxUnl .tsk, E_CTX), (cfg.mbx.valid mbxid, E_ID)] o <|
  let i := index mbxid
  if o.core.noWobj (.MBX, i) then .err o E_NOEXS
  else
    let r := o.core.initWaitQueue (.MBX, i)
    ((o.setCore r.1).setCb i { o.cb i with pkHead := 0 }).ok .tsk r.2 .none

def refMbx (cfg : Cfg) (o : MbxObj) (mbxid : ID) : Res MbxObj :=
  check [(o.core.ctxUnl .tsk, E_CTX), (cfg.mbx.valid mbxid, E_ID)] o <|
  let i := index mbxid
  if o.core.noWobj (.MBX, i) then .err o E_NOEXS
  else o.ok .tsk false (.rmbx (o.core.waitTskid (.MBX, i)) (o.cb i).pkHead)

end AspKernel
