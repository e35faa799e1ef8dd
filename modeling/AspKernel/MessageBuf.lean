import AspKernel.Service
import AspKernel.Lib.Ring
import AspKernel.Lib.Links

/-! The message buffers of the extension `messagebuf`: the ring of bytes, and the tasks that send
and receive. An access outside the area of a buffer has no outcome. -/

namespace AspKernel.Mbf
set_option autoImplicit true

abbrev Byte := BitVec 8

/-- `TOPPERS_ROUND_SZ(sz, sizeof(uint_t))`. -/
def roundUint (sz : Nat) : Nat := (roundSz (BitVec.ofNat 32 sz) 4).toNat

/-- The size of the area is that of an array of `uint_t`, and the largest message with its size can
be allocated. -/
structure MBFINIB where
  mbfatr : ATR
  maxmsz : Nat
  mbfsz : Nat
  aligned : mbfsz % 4 = 0
  mbfsz_lt : mbfsz < 2 ^ 32
  maxmsz_lt : 4 + (maxmsz + 3) / 4 * 4 < 2 ^ 32

structure MBFCB where
  swaitQueue : List Nat
  rwaitQueue : List Nat
  fmbfsz : Nat
  head : Nat
  tail : Nat
  smbfcnt : Nat
  /-- The area, byte by byte. -/
  mbfmb : Nat → Byte

/-- The bytes of a value of type `uint_t`, and the value. -/
def uintBytes (n : Nat) : List Byte := (List.range 4).map fun i => BitVec.ofNat 8 (n / 2 ^ (8 * i))
def uintOf (l : List Byte) : Nat := l.foldr (fun b n => b.toNat + 2 ^ 8 * n) 0

namespace MBFINIB

/-- `memcpy` to the area and from it. -/
def store (ini : MBFINIB) (mb : Nat → Byte) (i : Nat) (l : List Byte) : Option (Nat → Byte) :=
  if i + l.length ≤ ini.mbfsz then some (Ring.write mb i l) else none

def fetch (ini : MBFINIB) (mb : Nat → Byte) (i n : Nat) : Option (List Byte) :=
  if i + n ≤ ini.mbfsz then some (Ring.read mb i n) else none

/-- `*((uint_t *) &(mbuffer[i]))`. -/
def storeUint (ini : MBFINIB) (mb : Nat → Byte) (i n : Nat) : Option (Nat → Byte) :=
  if i % 4 = 0 then ini.store mb i (uintBytes n) else none

def fetchUint (ini : MBFINIB) (mb : Nat → Byte) (i : Nat) : Option Nat :=
  if i % 4 = 0 then (ini.fetch mb i 4).map uintOf else none

/-- The position after an advance. -/
def wrap (ini : MBFINIB) (i : Nat) : Nat := if ini.mbfsz ≤ i then 0 else i

end MBFINIB

namespace MBFCB

def init (ini : MBFINIB) (mb : Nat → Byte) : MBFCB where
  swaitQueue := []
  rwaitQueue := []
  fmbfsz := ini.mbfsz
  head := 0
  tail := 0
  smbfcnt := 0
  mbfmb := mb

def enqueueMessage (ini : MBFINIB) (p : MBFCB) (msg : List Byte) : Option (Bool × MBFCB) :=
  let allocsz := (4 + roundUint msg.length) % 2 ^ 32
  if allocsz ≤ p.fmbfsz then do
    let mb ← ini.storeUint p.mbfmb p.tail msg.length
    let tail := ini.wrap (p.tail + 4)
    let remsz := ini.mbfsz - tail
    let (mb, rest, tail) ← if remsz < msg.length then
        (ini.store mb tail (msg.take remsz)).map fun mb => (mb, msg.drop remsz, 0)
      else some (mb, msg, tail)
    let mb ← ini.store mb tail rest
    some (true, { p with
      mbfmb := mb
      tail := ini.wrap (tail + roundUint rest.length)
      fmbfsz := p.fmbfsz - allocsz
      smbfcnt := p.smbfcnt + 1 })
  else some (false, p)

def dequeueMessage (ini : MBFINIB) (p : MBFCB) : Option (List Byte × MBFCB) :=
  if p.smbfcnt = 0 then none
  else do
    let msgsz ← ini.fetchUint p.mbfmb p.head
    let head := ini.wrap (p.head + 4)
    let remsz := ini.mbfsz - head
    let (msg, copysz, head) ← if remsz < msgsz then
        (ini.fetch p.mbfmb head remsz).map fun msg => (msg, msgsz - remsz, 0)
      else some ([], msgsz, head)
    let rest ← ini.fetch p.mbfmb head copysz
    some (msg ++ rest, { p with
      head := ini.wrap (head + roundUint copysz)
      fmbfsz := p.fmbfsz + (4 + roundUint msgsz)
      smbfcnt := p.smbfcnt - 1 })

end MBFCB

/-- A task is in no other state that a message buffer could tell from these. -/
inductive Tstat
  | dormant | runnable | waitSmbf | waitRmbf
  deriving DecidableEq

structure WINFO where
  wercd : ER
  /-- `p_tmevtb` is not `NULL`. -/
  tmevtb : Bool
  mbfcb : Nat
  msg : List Byte

structure TCB where
  tstat : Tstat
  priority : Nat
  actque : Bool
  winfo : WINFO

structure Cfg where
  tmaxTskid : Nat
  tmaxMbfid : Nat
  ipriority : Nat → Nat
  mbfinib : Nat → MBFINIB

/-- A call that sends or receives has ended: the task, the buffer, the message, and the error code,
which is missing where the task has been terminated. -/
inductive Ended
  | sent (t b : Nat) (msg : List Byte)
  | sendFailed (t b : Nat) (msg : List Byte) (ercd : Option ER)
  | received (t b : Nat) (msg : List Byte)
  | receiveFailed (t b : Nat) (ercd : Option ER)

/-- `ended` is no data of the kernel. -/
structure K where
  mbfcb : Nat → MBFCB
  tcb : Nat → TCB
  ended : List Ended

/-- How the wait of a task ends. -/
def TCB.ending (p : TCB) (t : Nat) (ercd : Option ER) : Ended :=
  match p.tstat with
  | .waitSmbf =>
    if ercd = some E_OK then .sent t p.winfo.mbfcb p.winfo.msg
    else .sendFailed t p.winfo.mbfcb p.winfo.msg ercd
  | _ =>
    if ercd = some E_OK then .received t p.winfo.mbfcb p.winfo.msg
    else .receiveFailed t p.winfo.mbfcb ercd

namespace K

def setMbf (k : K) (b : Nat) (p : MBFCB) : K := { k with mbfcb := Function.update k.mbfcb b p }
def setTcb (k : K) (t : Nat) (p : TCB) : K := { k with tcb := Function.update k.tcb t p }
def note (k : K) (e : Ended) : K := { k with ended := k.ended ++ [e] }

/-- `make_non_wait`, with the time event and the error code. -/
def makeNonWait (k : K) (t : Nat) (ercd : ER) : K :=
  let p := k.tcb t
  (k.setTcb t { p with
    tstat := .runnable
    winfo := { p.winfo with tmevtb := false, wercd := ercd } }).note (p.ending t (some ercd))

def waitComplete (k : K) (t : Nat) : K := k.makeNonWait t E_OK

def queueInsertTpri (k : K) (t : Nat) (q : List Nat) : List Nat :=
  Links.insertBy (fun a b => decide ((k.tcb a).priority < (k.tcb b).priority)) t q

/-- The loop of `messagebuf_signal` over the send-wait queue. -/
def signalLoop (cfg : Cfg) (b : Nat) : List Nat → K → Option K
  | [], k => some k
  | t :: q, k => do
    let (ok, p) ← (k.mbfcb b).enqueueMessage (cfg.mbfinib b) (k.tcb t).winfo.msg
    if ok then signalLoop cfg b q ((k.setMbf b { p with swaitQueue := q }).waitComplete t)
    else some k

def messagebufSignal (cfg : Cfg) (k : K) (b : Nat) : Option K :=
  signalLoop cfg b (k.mbfcb b).swaitQueue k

def waitDequeueWobj (cfg : Cfg) (k : K) (t : Nat) : Option K :=
  let b := (k.tcb t).winfo.mbfcb
  let p := k.mbfcb b
  match (k.tcb t).tstat with
  | .waitSmbf =>
    messagebufSignal cfg (k.setMbf b { p with swaitQueue := p.swaitQueue.erase t }) b
  | .waitRmbf => some (k.setMbf b { p with rwaitQueue := p.rwaitQueue.erase t })
  | _ => some k

def waitTmout (cfg : Cfg) (k : K) (t : Nat) : Option K := do
  let k ← k.waitDequeueWobj cfg t
  some (k.makeNonWait t E_TMOUT)

def waitRelease (cfg : Cfg) (k : K) (t : Nat) : Option K := do
  let k ← k.waitDequeueWobj cfg t
  some (k.makeNonWait t E_RLWAI)

def wobjChangePriority (cfg : Cfg) (k : K) (b t : Nat) : Option K :=
  let p := k.mbfcb b
  if (cfg.mbfinib b).mbfatr.has TA_TPRI then
    messagebufSignal cfg
      (k.setMbf b { p with swaitQueue := k.queueInsertTpri t (p.swaitQueue.erase t) }) b
  else some k

/-- The queue for receivers is not one of the common part of a control block. -/
def changePriority (cfg : Cfg) (k : K) (t newpri : Nat) : Option K :=
  let k := k.setTcb t { k.tcb t with priority := newpri }
  match (k.tcb t).tstat with
  | .waitSmbf => k.wobjChangePriority cfg (k.tcb t).winfo.mbfcb t
  | _ => some k

def initWaitQueue (k : K) (q : List Nat) : K := q.foldl (fun k t => k.makeNonWait t E_DLT) k

def havePrecedence (cfg : Cfg) (k : K) (me b : Nat) : Bool :=
  match (k.mbfcb b).swaitQueue with
  | [] => true
  | t :: _ => (cfg.mbfinib b).mbfatr.has TA_TPRI &&
    decide ((k.tcb me).priority < (k.tcb t).priority)

def sendMessage (cfg : Cfg) (k : K) (me b : Nat) (msg : List Byte) : Option (Bool × K) :=
  let p := k.mbfcb b
  match p.rwaitQueue with
  | t :: q =>
    let k := k.setMbf b { p with rwaitQueue := q }
    let w := k.tcb t
    some (true, ((k.setTcb t { w with winfo := { w.winfo with msg } }).note
      (.sent me b msg)).waitComplete t)
  | [] =>
    if k.havePrecedence cfg me b then do
      let (ok, q) ← p.enqueueMessage (cfg.mbfinib b) msg
      if ok then some (true, (k.setMbf b q).note (.sent me b msg)) else some (false, k)
    else some (false, k)

/-- The message; none stands for the size 0. -/
def receiveMessage (cfg : Cfg) (k : K) (me b : Nat) : Option (Option (List Byte) × K) :=
  let p := k.mbfcb b
  if 0 < p.smbfcnt then do
    let (msg, q) ← p.dequeueMessage (cfg.mbfinib b)
    let k ← ((k.setMbf b q).note (.received me b msg)).messagebufSignal cfg b
    some (some msg, k)
  else
    match p.swaitQueue with
    | t :: q =>
      let msg := (k.tcb t).winfo.msg
      some (some msg,
        ((k.setMbf b { p with swaitQueue := q }).waitComplete t).note (.received me b msg))
    | [] => some (none, k)

/-- `wobj_make_wait` and `wobj_make_wait_tmout`. -/
def makeWaitSmbf (cfg : Cfg) (k : K) (me b : Nat) (msg : List Byte) (tmout : TMO) : K :=
  let p := k.mbfcb b
  let q := if (cfg.mbfinib b).mbfatr.has TA_TPRI then k.queueInsertTpri me p.swaitQueue
    else p.swaitQueue ++ [me]
  (k.setTcb me { k.tcb me with
    tstat := .waitSmbf
    winfo := ⟨E_OK, tmout != TMO_FEVR, b, msg⟩ }).setMbf b { p with swaitQueue := q }

def makeWaitRmbf (k : K) (me b : Nat) (tmout : TMO) : K :=
  let p := k.mbfcb b
  (k.setTcb me { k.tcb me with
    tstat := .waitRmbf
    winfo := ⟨E_OK, tmout != TMO_FEVR, b, []⟩ }).setMbf b
      { p with rwaitQueue := p.rwaitQueue ++ [me] }

/-- What a call has led to: its error code, none where the caller waits, and the state. -/
abbrev Out := Option ER × K

/-- A call that sends and ends with an error at once. -/
def sendError (k : K) (me b : Nat) (msg : List Byte) (ercd : ER) : Out :=
  (some ercd, k.note (.sendFailed me b msg (some ercd)))

def receiveError (k : K) (me b : Nat) (ercd : ER) : Out :=
  (some ercd, k.note (.receiveFailed me b (some ercd)))

def validMbfid (cfg : Cfg) (mbfid : ID) : Bool := decide (1 ≤ mbfid ∧ mbfid ≤ cfg.tmaxMbfid)
def validTskid (cfg : Cfg) (tskid : ID) : Bool := decide (1 ≤ tskid ∧ tskid ≤ cfg.tmaxTskid)

def tsndMbf (cfg : Cfg) (k : K) (me : Nat) (mbfid : ID) (msg : List Byte) (tmout : TMO) :
    Option Out :=
  let b := index mbfid
  if !validMbfid cfg mbfid then some (k.sendError me b msg E_ID)
  else if !validTmout tmout then some (k.sendError me b msg E_PAR)
  else if !decide (0 < msg.length ∧ msg.length ≤ (cfg.mbfinib b).maxmsz) then
    some (k.sendError me b msg E_PAR)
  else do
    let (ok, k) ← k.sendMessage cfg me b msg
    if ok then some (some E_OK, k)
    else if tmout = TMO_POL then some (k.sendError me b msg E_TMOUT)
    else some (none, k.makeWaitSmbf cfg me b msg tmout)

def sndMbf (cfg : Cfg) (k : K) (me : Nat) (mbfid : ID) (msg : List Byte) : Option Out :=
  k.tsndMbf cfg me mbfid msg TMO_FEVR

def psndMbf (cfg : Cfg) (k : K) (me : Nat) (mbfid : ID) (msg : List Byte) : Option Out :=
  k.tsndMbf cfg me mbfid msg TMO_POL

def trcvMbf (cfg : Cfg) (k : K) (me : Nat) (mbfid : ID) (tmout : TMO) : Option Out :=
  let b := index mbfid
  if !validMbfid cfg mbfid then some (k.receiveError me b E_ID)
  else if !validTmout tmout then some (k.receiveError me b E_PAR)
  else do
    match ← k.receiveMessage cfg me b with
    | (some msg, k) => some (some (msg.length : Int), k)
    | (none, k) =>
      if tmout = TMO_POL then some (k.receiveError me b E_TMOUT)
      else some (none, k.makeWaitRmbf me b tmout)

def rcvMbf (cfg : Cfg) (k : K) (me : Nat) (mbfid : ID) : Option Out :=
  k.trcvMbf cfg me mbfid TMO_FEVR

def prcvMbf (cfg : Cfg) (k : K) (me : Nat) (mbfid : ID) : Option Out :=
  k.trcvMbf cfg me mbfid TMO_POL

def iniMbf (cfg : Cfg) (k : K) (mbfid : ID) : Out :=
  if !validMbfid cfg mbfid then (some E_ID, k)
  else
    let b := index mbfid
    let p := k.mbfcb b
    let k := (k.initWaitQueue p.swaitQueue).initWaitQueue p.rwaitQueue
    (some E_OK, k.setMbf b (.init (cfg.mbfinib b) p.mbfmb))

/-- `TPRI_INI` stands for the initial priority. -/
def chgPri (cfg : Cfg) (k : K) (me : Nat) (tskid : ID) (tskpri : PRI) : Option Out :=
  if !(validTskid cfg tskid || tskid == TSK_SELF) then some (some E_ID, k)
  else if !(validTpri tskpri || tskpri == TPRI_INI) then some (some E_PAR, k)
  else
    let t := if tskid = TSK_SELF then me else index tskid
    let newpri := if tskpri = TPRI_INI then cfg.ipriority t else intPriority tskpri
    if (k.tcb t).tstat = .dormant then some (some E_OBJ, k)
    else do
      let k ← k.changePriority cfg t newpri
      some (some E_OK, k)

def relWai (cfg : Cfg) (k : K) (tskid : ID) : Option Out :=
  let t := index tskid
  if !validTskid cfg tskid then some (some E_ID, k)
  else
    match (k.tcb t).tstat with
    | .dormant | .runnable => some (some E_OBJ, k)
    | _ => do
      let k ← k.waitRelease cfg t
      some (some E_OK, k)

/-- `make_dormant` and, where an activation is queued, `make_active`. -/
def makeDormant (cfg : Cfg) (k : K) (t : Nat) : K :=
  let p := k.tcb t
  k.setTcb t { p with
    tstat := if p.actque then .runnable else .dormant
    priority := cfg.ipriority t
    actque := false }

def terTsk (cfg : Cfg) (k : K) (me : Nat) (tskid : ID) : Option Out :=
  let t := index tskid
  if !validTskid cfg tskid then some (some E_ID, k)
  else if t = me then some (some E_ILUSE, k)
  else
    match (k.tcb t).tstat with
    | .dormant => some (some E_OBJ, k)
    | .runnable => some (some E_OK, k.makeDormant cfg t)
    | _ => do
      let k' ← k.waitDequeueWobj cfg t
      some (some E_OK, (k'.note ((k.tcb t).ending t none)).makeDormant cfg t)

def actTsk (cfg : Cfg) (k : K) (tskid : ID) : Out :=
  let t := index tskid
  if !validTskid cfg tskid then (some E_ID, k)
  else if (k.tcb t).tstat = .dormant then
    (some E_OK, k.setTcb t { k.tcb t with tstat := .runnable })
  else if (k.tcb t).actque then (some E_QOVR, k)
  else (some E_OK, k.setTcb t { k.tcb t with actque := true })

end K

/-- The calls of tasks. -/
inductive Call
  | sndMbf (mbfid : ID) (msg : List Byte) | psndMbf (mbfid : ID) (msg : List Byte)
  | tsndMbf (mbfid : ID) (msg : List Byte) (tmout : TMO)
  | rcvMbf (mbfid : ID) | prcvMbf (mbfid : ID) | trcvMbf (mbfid : ID) (tmout : TMO)
  | iniMbf (mbfid : ID) | chgPri (tskid : ID) (tskpri : PRI)
  | relWai (tskid : ID) | terTsk (tskid : ID) | actTsk (tskid : ID)

/-- A task that can run makes a call, an interrupt handler releases or activates a task, or the time
of a wait is over. -/
inductive Event
  | call (me : Nat) (call : Call)
  | irelWai (tskid : ID) | iactTsk (tskid : ID) | tmout (t : Nat)

def K.exec (cfg : Cfg) (k : K) (me : Nat) : Call → Option K.Out
  | .sndMbf mbfid msg => k.sndMbf cfg me mbfid msg
  | .psndMbf mbfid msg => k.psndMbf cfg me mbfid msg
  | .tsndMbf mbfid msg tmout => k.tsndMbf cfg me mbfid msg tmout
  | .rcvMbf mbfid => k.rcvMbf cfg me mbfid
  | .prcvMbf mbfid => k.prcvMbf cfg me mbfid
  | .trcvMbf mbfid tmout => k.trcvMbf cfg me mbfid tmout
  | .iniMbf mbfid => some (k.iniMbf cfg mbfid)
  | .chgPri tskid tskpri => k.chgPri cfg me tskid tskpri
  | .relWai tskid => k.relWai cfg tskid
  | .terTsk tskid => k.terTsk cfg me tskid
  | .actTsk tskid => some (k.actTsk cfg tskid)

/-- The event can happen. -/
def Event.enabled (k : K) : Event → Bool
  | .call me _ => (k.tcb me).tstat = .runnable
  | .tmout t => (k.tcb t).winfo.tmevtb &&
    decide ((k.tcb t).tstat = .waitSmbf ∨ (k.tcb t).tstat = .waitRmbf)
  | _ => true

def K.step (cfg : Cfg) (k : K) (e : Event) : Option K :=
  if e.enabled k then
    match e with
    | .call me call => (k.exec cfg me call).map (·.2)
    | .irelWai tskid => (k.relWai cfg tskid).map (·.2)
    | .iactTsk tskid => some (k.actTsk cfg tskid).2
    | .tmout t => k.waitTmout cfg t
  else none

/-- The system at its start, with the tasks `act` activated. -/
def boot (cfg : Cfg) (act : Nat → Bool) (mb : Nat → Nat → Byte) : K where
  mbfcb b := .init (cfg.mbfinib b) (mb b)
  tcb t := ⟨if act t then .runnable else .dormant, cfg.ipriority t, false, ⟨E_OK, false, 0, []⟩⟩
  ended := []

end AspKernel.Mbf
