import AspKernel.DataQueue

namespace AspKernel
set_option autoImplicit true

/-- A management block of the area `p_pdqmb`; the pointers between blocks are their positions. -/
structure PDQMB where
  pNext : Option Nat
  data : IntPtr
  datapri : PRI

/-- `sizeof(PDQMB)`. -/
def sizeofPDQMB : BitVec 32 := 12

/-- `mb` is the contents of the area `p_pdqmb`. -/
structure PDQCB where
  pdqcnt : Nat
  maxdpri : PRI
  pPdqmb : Addr
  mb : Nat → PDQMB
  count : Nat
  pHead : Option Nat
  unused : Nat
  pFreelist : Option Nat

namespace PDQCB

/-- The initialisation that `ini_pdq` shares with the creation. -/
def clear (p : PDQCB) : PDQCB :=
  { p with count := 0, pHead := none, unused := 0, pFreelist := none }

/-- The place that `pp_prev_next` points to: `p_head` or the `p_next` of a block. -/
def setNext (p : PDQCB) (prev : Option Nat) (next : Option Nat) : PDQCB :=
  match prev with
  | none => { p with pHead := next }
  | some j => { p with mb := Function.update p.mb j { p.mb j with pNext := next } }

def getNext (p : PDQCB) : Option Nat → Option Nat
  | none => p.pHead
  | some j => (p.mb j).pNext

/-- The search of `enqueue_pridata` for its place, from `prev` on, in at most `n` steps. -/
def searchPlace (p : PDQCB) (datapri : PRI) : Nat → Option Nat → Option Nat
  | 0, prev => prev
  | n + 1, prev =>
    match p.getNext prev with
    | none => prev
    | some j => if (p.mb j).datapri > datapri then prev else p.searchPlace datapri n (some j)

/-- A free block: the first one of the free list, or one that has not been used yet. -/
def allocBlock (p : PDQCB) : Nat × PDQCB :=
  match p.pFreelist with
  | some j => (j, { p with pFreelist := (p.mb j).pNext })
  | none => (p.unused, { p with unused := p.unused + 1 })

/-- The search takes as many steps as there are blocks in the queue. -/
def enqueuePridata (p : PDQCB) (data : IntPtr) (datapri : PRI) : PDQCB :=
  let (j, p) := p.allocBlock
  let p := { p with mb := Function.update p.mb j ⟨(p.mb j).pNext, data, datapri⟩ }
  let prev := p.searchPlace datapri p.count none
  let p := { p with mb := Function.update p.mb j { p.mb j with pNext := p.getNext prev } }
  let p := p.setNext prev (some j)
  { p with count := p.count + 1 }

/-- It is called for a queue that is not empty. -/
def dequeuePridata (p : PDQCB) : (IntPtr × PRI) × PDQCB :=
  let j := p.pHead.getD 0
  let b := p.mb j
  ((b.data, b.datapri), { p with
    pHead := b.pNext
    count := p.count - 1
    mb := Function.update p.mb j { b with pNext := p.pFreelist }
    pFreelist := some j })

end PDQCB

def Core.waitPridata (c : Core) (t : Nat) : IntPtr × PRI :=
  ((c.tcb t).winfo.data, (c.tcb t).winfo.datapri)

def Core.completeWithPridata (c : Core) (t : Nat) (data : IntPtr) (datapri : PRI) : Core × Bool :=
  ((c.queueDelete t).setWinfo t
    { (c.tcb t).winfo with data := data, datapri := datapri }).waitComplete t

/-- `send_pridata`: the state and `dspreq` where the data has been sent. -/
def sendPridata (o : Obj PDQCB) (i : Nat) (data : IntPtr) (datapri : PRI) :
    Option (Obj PDQCB × Bool) :=
  let p := o.cb i
  match o.core.headTsk (.RPDQ, i) with
  | some t =>
    let r := o.core.completeWithPridata t data datapri
    some (o.setCore r.1, r.2)
  | none =>
    if p.count < p.pdqcnt then some (o.setCb i (p.enqueuePridata data datapri), false) else none

/-- `receive_pridata`: the state, the data and `dspreq` where data has been received. -/
def receivePridata (o : Obj PDQCB) (i : Nat) : Option (Obj PDQCB × (IntPtr × PRI) × Bool) :=
  let p := o.cb i
  if 0 < p.count then
    let d := p.dequeuePridata
    match o.core.headTsk (.SPDQ, i) with
    | some t =>
      let w := o.core.waitPridata t
      let r := (o.core.queueDelete t).waitComplete t
      some ((o.setCore r.1).setCb i (d.2.enqueuePridata w.1 w.2), d.1, r.2)
    | none => some (o.setCb i d.2, d.1, false)
  else
    match o.core.headTsk (.SPDQ, i) with
    | some t =>
      let r := (o.core.queueDelete t).waitComplete t
      some (o.setCore r.1, o.core.waitPridata t, r.2)
    | none => none

/-- `mem` is what `kernel_malloc` returns. -/
def acrePdq (cfg : Cfg) (o : Obj PDQCB) (pk : PDQINIB) (mem : Addr) : Res (Obj PDQCB) :=
  check [(o.core.ctxUnl .tsk, E_CTX), (!pk.pdqatr.has (~~~TA_TPRI), E_RSATR),
    (validDpri pk.maxdpri, E_PAR),
    (pk.pPdqmb == 0 || cfg.target.mbAligned pk.pPdqmb, E_PAR)] o <|
  match o.core.takeWobj cfg.pdq .SPDQ with
  | none => .err o E_NOID
  | some (i, c) =>
    let alloc := pk.pdqcnt ≠ 0 ∧ pk.pPdqmb = 0
    let pPdqmb := if alloc then mem else pk.pPdqmb
    let pdqatr := if alloc then pk.pdqatr ||| TA_MBALLOC else pk.pdqatr
    if pk.pdqcnt ≠ 0 ∧ pPdqmb = 0 then .err o E_NOMEM
    else
      let c := if alloc then c.kernelMalloc (sizeofPDQMB * BitVec.ofNat 32 pk.pdqcnt) mem else c
      let c := (c.initWobj (.SPDQ, i) pdqatr).initQueue (.RPDQ, i)
      .value ((o.setCore c).setCb i
        ⟨pk.pdqcnt, pk.maxdpri, pPdqmb, (o.cb i).mb, 0, none, 0, none⟩) (toId i)

def delPdq (cfg : Cfg) (o : Obj PDQCB) (pdqid : ID) : Res (Obj PDQCB) :=
  check [(o.core.ctxUnl .tsk, E_CTX), (cfg.pdq.valid pdqid, E_ID)] o <|
  let i := index pdqid
  if o.core.noWobj (.SPDQ, i) then .err o E_NOEXS
  else if cfg.pdq.dynamic i then
    let r := o.core.initWaitQueue (.SPDQ, i)
    let r' := r.1.initWaitQueue (.RPDQ, i)
    let c :=
      if (o.core.wobjatr (.SPDQ, i)).has TA_MBALLOC then r'.1.kernelFree (o.cb i).pPdqmb else r'.1
    (o.setCore (c.freeWobjcb (.SPDQ, i))).ok .tsk (r.2 || r'.2) .none
  else .err o E_OBJ

/-- `snd_pdq`, `psnd_pdq`, `ipsnd_pdq` and `tsnd_pdq`. -/
def sndPdqWith (cfg : Cfg) (o : Obj PDQCB) (pdqid : ID) (data : IntPtr) (datapri : PRI)
    (m : WaitMode) : Res (Obj PDQCB) :=
  check [(o.core.ctxMode m, E_CTX), (cfg.pdq.valid pdqid, E_ID), (m.valid, E_PAR),
    (decide (TMIN_DPRI ≤ datapri), E_PAR)] o <|
  let i := index pdqid
  if o.core.noWobj (.SPDQ, i) then .err o E_NOEXS
  else if ¬datapri ≤ (o.cb i).maxdpri then .err o E_PAR
  else
    match sendPridata o i data datapri with
    | some r => r.1.ok m.ctx r.2 .none
    | none =>
      if m.polls then .err o E_TMOUT
      else
        let w := { WInfo.local with data := data, datapri := datapri }
        .wait (o.setCore (o.core.waitWobj m (.SPDQ, i) w))

def sndPdq (cfg : Cfg) (o : Obj PDQCB) (pdqid : ID) (data : IntPtr) (datapri : PRI) :
    Res (Obj PDQCB) := sndPdqWith cfg o pdqid data datapri .fevr
def psndPdq (cfg : Cfg) (o : Obj PDQCB) (pdqid : ID) (data : IntPtr) (datapri : PRI) :
    Res (Obj PDQCB) := sndPdqWith cfg o pdqid data datapri (.pol .tsk)
def ipsndPdq (cfg : Cfg) (o : Obj PDQCB) (pdqid : ID) (data : IntPtr) (datapri : PRI) :
    Res (Obj PDQCB) := sndPdqWith cfg o pdqid data datapri (.pol .int)
def tsndPdq (cfg : Cfg) (o : Obj PDQCB) (pdqid : ID) (data : IntPtr) (datapri : PRI)
    (tmout : TMO) : Res (Obj PDQCB) := sndPdqWith cfg o pdqid data datapri (.tmo tmout)

/-- `rcv_pdq`, `prcv_pdq` and `trcv_pdq`. -/
def rcvPdqWith (cfg : Cfg) (o : Obj PDQCB) (pdqid : ID) (m : WaitMode) : Res (Obj PDQCB) :=
  check [(o.core.ctxMode m, E_CTX), (cfg.pdq.valid pdqid, E_ID), (m.valid, E_PAR)] o <|
  let i := index pdqid
  if o.core.noWobj (.SPDQ, i) then .err o E_NOEXS
  else
    match receivePridata o i with
    | some r => r.1.ok .tsk r.2.2 (.pridata r.2.1.1 r.2.1.2)
    | none =>
      if m.polls then .err o E_TMOUT
      else .wait (o.setCore (o.core.waitReceive m (.RPDQ, i)))

def rcvPdq (cfg : Cfg) (o : Obj PDQCB) (pdqid : ID) : Res (Obj PDQCB) := rcvPdqWith cfg o pdqid .fevr
def prcvPdq (cfg : Cfg) (o : Obj PDQCB) (pdqid : ID) : Res (Obj PDQCB) :=
  rcvPdqWith cfg o pdqid (.pol .tsk)
def trcvPdq (cfg : Cfg) (o : Obj PDQCB) (pdqid : ID) (tmout : TMO) : Res (Obj PDQCB) :=
  rcvPdqWith cfg o pdqid (.tmo tmout)

def iniPdq (cfg : Cfg) (o : Obj PDQCB) (pdqid : ID) : Res (Obj PDQCB) :=
  check [(o.core.ctxUnl .tsk, E_CTX), (cfg.pdq.valid pdqid, E_ID)] o <|
  let i := index pdqid
  if o.core.noWobj (.SPDQ, i) then .err o E_NOEXS
  else
    let r := o.core.initWaitQueue (.SPDQ, i)
    let r' := r.1.initWaitQueue (.RPDQ, i)
    ((o.setCore r'.1).setCb i (o.cb i).clear).ok .tsk (r.2 || r'.2) .none

def refPdq (cfg : Cfg) (o : Obj PDQCB) (pdqid : ID) : Res (Obj PDQCB) :=
  check [(o.core.ctxUnl .tsk, E_CTX), (cfg.pdq.valid pdqid, E_ID)] o <|
  let i := index pdqid
  if o.core.noWobj (.SPDQ, i) then .err o E_NOEXS
  else o.ok .tsk false
    (.rpdq (o.core.waitTskid (.SPDQ, i)) (o.core.waitTskid (.RPDQ, i)) (o.cb i).count)

end AspKernel
