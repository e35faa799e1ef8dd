import AspKernel.Service

namespace AspKernel
set_option autoImplicit true

/-- `sizeof(DTQMB)`. -/
def sizeofDTQMB : BitVec 32 := 4

/-- `mb` is the contents of the area `p_dtqmb`. -/
structure DTQCB where
  dtqcnt : Nat
  pDtqmb : Addr
  mb : Nat → IntPtr
  count : Nat
  head : Nat
  tail : Nat

namespace DTQCB

/-- The initialisation that `ini_dtq` shares with the creation. -/
def clear (p : DTQCB) : DTQCB := { p with count := 0, head := 0, tail := 0 }

/-- The position after the last one is the first one. -/
def wrap (p : DTQCB) (i : Nat) : Nat := if p.dtqcnt ≤ i then 0 else i

def enqueueData (p : DTQCB) (data : IntPtr) : DTQCB :=
  { p with
    mb := Function.update p.mb p.tail data
    count := p.count + 1
    tail := p.wrap (p.tail + 1) }

def forceEnqueueData (p : DTQCB) (data : IntPtr) : DTQCB :=
  let tail := p.wrap (p.tail + 1)
  let p := { p with mb := Function.update p.mb p.tail data, tail := tail }
  if p.count < p.dtqcnt then { p with count := p.count + 1 } else { p with head := p.tail }

def dequeueData (p : DTQCB) : IntPtr × DTQCB :=
  (p.mb p.head, { p with count := p.count - 1, head := p.wrap (p.head + 1) })

end DTQCB

/-- The data of a waiting task, and the completion of a wait with data. -/
def Core.waitData (c : Core) (t : Nat) : IntPtr := (c.tcb t).winfo.data

def Core.completeWithData (c : Core) (t : Nat) (data : IntPtr) : Core × Bool :=
  ((c.queueDelete t).setWinfo t { (c.tcb t).winfo with data := data }).waitComplete t

/-- `send_data`: the state and `dspreq` where the data has been sent. -/
def sendData (o : Obj DTQCB) (i : Nat) (data : IntPtr) : Option (Obj DTQCB × Bool) :=
  let p := o.cb i
  match o.core.headTsk (.RDTQ, i) with
  | some t =>
    let r := o.core.completeWithData t data
    some (o.setCore r.1, r.2)
  | none => if p.count < p.dtqcnt then some (o.setCb i (p.enqueueData data), false) else none

def forceSendData (o : Obj DTQCB) (i : Nat) (data : IntPtr) : Obj DTQCB × Bool :=
  match o.core.headTsk (.RDTQ, i) with
  | some t =>
    let r := o.core.completeWithData t data
    (o.setCore r.1, r.2)
  | none => (o.setCb i ((o.cb i).forceEnqueueData data), false)

/-- `receive_data`: the state, the data and `dspreq` where data has been received. -/
def receiveData (o : Obj DTQCB) (i : Nat) : Option (Obj DTQCB × IntPtr × Bool) :=
  let p := o.cb i
  if 0 < p.count then
    let d := p.dequeueData
    match o.core.headTsk (.SDTQ, i) with
    | some t =>
      let r := (o.core.queueDelete t).waitComplete t
      some ((o.setCore r.1).setCb i (d.2.enqueueData (o.core.waitData t)), d.1, r.2)
    | none => some (o.setCb i d.2, d.1, false)
  else
    match o.core.headTsk (.SDTQ, i) with
    | some t =>
      let r := (o.core.queueDelete t).waitComplete t
      some (o.setCore r.1, o.core.waitData t, r.2)
    | none => none

/-- `mem` is what `kernel_malloc` returns. -/
def acreDtq (cfg : Cfg) (o : Obj DTQCB) (pk : DTQINIB) (mem : Addr) : Res (Obj DTQCB) :=
  check [(o.core.ctxUnl .tsk, E_CTX), (!pk.dtqatr.has (~~~TA_TPRI), E_RSATR),
    (pk.pDtqmb == 0 || cfg.target.mbAligned pk.pDtqmb, E_PAR)] o <|
  match o.core.takeWobj cfg.dtq .SDTQ with
  | none => .err o E_NOID
  | some (i, c) =>
    let alloc := pk.dtqcnt ≠ 0 ∧ pk.pDtqmb = 0
    let pDtqmb := if alloc then mem else pk.pDtqmb
    let dtqatr := if alloc then pk.dtqatr ||| TA_MBALLOC else pk.dtqatr
    if pk.dtqcnt ≠ 0 ∧ pDtqmb = 0 then .err o E_NOMEM
    else
      let c := if alloc then c.kernelMalloc (sizeofDTQMB * BitVec.ofNat 32 pk.dtqcnt) mem else c
      let c := (c.initWobj (.SDTQ, i) dtqatr).initQueue (.RDTQ, i)
      .value ((o.setCore c).setCb i ⟨pk.dtqcnt, pDtqmb, (o.cb i).mb, 0, 0, 0⟩) (toId i)

def delDtq (cfg : Cfg) (o : Obj DTQCB) (dtqid : ID) : Res (Obj DTQCB) :=
  check [(o.core.ctxUnl .tsk, E_CTX), (cfg.dtq.valid dtqid, E_ID)] o <|
  let i := index dtqid
  if o.core.noWobj (.SDTQ, i) then .err o E_NOEXS
  else if cfg.dtq.dynamic i then
    let r := o.core.initWaitQueue (.SDTQ, i)
    let r' := r.1.initWaitQueue (.RDTQ, i)
    let c :=
      if (o.core.wobjatr (.SDTQ, i)).has TA_MBALLOC then r'.1.kernelFree (o.cb i).pDtqmb else r'.1
    (o.setCore (c.freeWobjcb (.SDTQ, i))).ok .tsk (r.2 || r'.2) .none
  else .err o E_OBJ

/-- `snd_dtq`, `psnd_dtq`, `ipsnd_dtq` and `tsnd_dtq`. -/
def sndDtqWith (cfg : Cfg) (o : Obj DTQCB) (dtqid : ID) (data : IntPtr) (m : WaitMode) :
    Res (Obj DTQCB) :=
  check [(o.core.ctxMode m, E_CTX), (cfg.dtq.valid dtqid, E_ID), (m.valid, E_PAR)] o <|
  let i := index dtqid
  if o.core.noWobj (.SDTQ, i) then .err o E_NOEXS
  else
    match sendData o i data with
    | some r => r.1.ok m.ctx r.2 .none
    | none =>
      if m.polls then .err o E_TMOUT
      else .wait (o.setCore (o.core.waitWobj m (.SDTQ, i) { WInfo.local with data := data }))

def sndDtq (cfg : Cfg) (o : Obj DTQCB) (dtqid : ID) (data : IntPtr) : Res (Obj DTQCB) :=
  sndDtqWith cfg o dtqid data .fevr
def psndDtq (cfg : Cfg) (o : Obj DTQCB) (dtqid : ID) (data : IntPtr) : Res (Obj DTQCB) :=
  sndDtqWith cfg o dtqid data (.pol .tsk)
def ipsndDtq (cfg : Cfg) (o : Obj DTQCB) (dtqid : ID) (data : IntPtr) : Res (Obj DTQCB) :=
  sndDtqWith cfg o dtqid data (.pol .int)
def tsndDtq (cfg : Cfg) (o : Obj DTQCB) (dtqid : ID) (data : IntPtr) (tmout : TMO) :
    Res (Obj DTQCB) := sndDtqWith cfg o dtqid data (.tmo tmout)

/-- `fsnd_dtq` and `ifsnd_dtq`. -/
def fsndDtqWith (cfg : Cfg) (o : Obj DTQCB) (ctx : Ctx) (dtqid : ID) (data : IntPtr) :
    Res (Obj DTQCB) :=
  check [(o.core.ctxUnl ctx, E_CTX), (cfg.dtq.valid dtqid, E_ID)] o <|
  let i := index dtqid
  if o.core.noWobj (.SDTQ, i) then .err o E_NOEXS
  else if (o.cb i).dtqcnt = 0 then .err o E_ILUSE
  else
    let r := forceSendData o i data
    r.1.ok ctx r.2 .none

def fsndDtq (cfg : Cfg) (o : Obj DTQCB) (dtqid : ID) (data : IntPtr) : Res (Obj DTQCB) :=
  fsndDtqWith cfg o .tsk dtqid data
def ifsndDtq (cfg : Cfg) (o : Obj DTQCB) (dtqid : ID) (data : IntPtr) : Res (Obj DTQCB) :=
  fsndDtqWith cfg o .int dtqid data

/-- `rcv_dtq`, `prcv_dtq` and `trcv_dtq`. -/
def rcvDtqWith (cfg : Cfg) (o : Obj DTQCB) (dtqid : ID) (m : WaitMode) : Res (Obj DTQCB) :=
  check [(o.core.ctxMode m, E_CTX), (cfg.dtq.valid dtqid, E_ID), (m.valid, E_PAR)] o <|
  let i := index dtqid
  if o.core.noWobj (.SDTQ, i) then .err o E_NOEXS
  else
    match receiveData o i with
    | some r => r.1.ok .tsk r.2.2 (.data r.2.1)
    | none =>
      if m.polls then .err o E_TMOUT
      else .wait (o.setCore (o.core.waitReceive m (.RDTQ, i)))

def rcvDtq (cfg : Cfg) (o : Obj DTQCB) (dtqid : ID) : Res (Obj DTQCB) := rcvDtqWith cfg o dtqid .fevr
def prcvDtq (cfg : Cfg) (o : Obj DTQCB) (dtqid : ID) : Res (Obj DTQCB) :=
  rcvDtqWith cfg o dtqid (.pol .tsk)
def trcvDtq (cfg : Cfg) (o : Obj DTQCB) (dtqid : ID) (tmout : TMO) : Res (Obj DTQCB) :=
  rcvDtqWith cfg o dtqid (.tmo tmout)

def iniDtq (cfg : Cfg) (o : Obj DTQCB) (dtqid : ID) : Res (Obj DTQCB) :=
  check [(o.core.ctxUnl .tsk, E_CTX), (cfg.dtq.valid dtqid, E_ID)] o <|
  let i := index dtqid
  if o.core.noWobj (.SDTQ, i) then .err o E_NOEXS
  else
    let r := o.core.initWaitQueue (.SDTQ, i)
    let r' := r.1.initWaitQueue (.RDTQ, i)
    ((o.setCore r'.1).setCb i (o.cb i).clear).ok .tsk (r.2 || r'.2) .none

def refDtq (cfg : Cfg) (o : Obj DTQCB) (dtqid : ID) : Res (Obj DTQCB) :=
  check [(o.core.ctxUnl .tsk, E_CTX), (cfg.dtq.valid dtqid, E_ID)] o <|
  let i := index dtqid
  if o.core.noWobj (.SDTQ, i) then .err o E_NOEXS
  else o.ok .tsk false
    (.rdtq (o.core.waitTskid (.SDTQ, i)) (o.core.waitTskid (.RDTQ, i)) (o.cb i).count)

end AspKernel
