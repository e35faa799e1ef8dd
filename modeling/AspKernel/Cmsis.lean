import AspKernel.Code

/-! `rt_CMSIS.cpp`: semaphores, message queues and signals. -/

namespace AspKernel.Cmsis
open App
set_option autoImplicit true

/-- The values of `osStatus` that these functions use. -/
inductive Status
  | osOK | osEventMessage | osEventTimeout
  | osErrorParameter | osErrorResource | osErrorTimeoutResource | osErrorISR
  deriving DecidableEq, Repr

/-- `osEvent`; `value` is none where the function does not store it. -/
structure OsEvent where
  status : Status
  value : Option IntPtr
  deriving DecidableEq, Repr

def osWaitForever : BitVec 32 := 0xffffffff
def osFeature_Semaphore : Int := 65535

/-- `C2T_TMO`. -/
def c2tTmo (ms : BitVec 32) : TMO := if ms = osWaitForever then TMO_FEVR else ms

/-- The assertion on `millisec`. -/
def validMillisec (ms : BitVec 32) : Bool := decide (ms.toNat < 2 ^ 31 ∨ ms = osWaitForever)

section
variable (ndebug : Bool)

/-- None stands for `NULL`. -/
def osSemaphoreCreate (count : BitVec 32) : Code (Option ID) := do
  assert ndebug (count.toInt ≤ osFeature_Semaphore)
  let (ercd, _) ← svc (.acreSem ⟨TA_NULL, count.toNat, 1⟩)
  return if ercd < 0 then none else some ercd

def osSemaphoreWait (semaphoreId : ID) (millisec : BitVec 32) : Code Int := do
  assert ndebug (validMillisec millisec)
  let (ercd, _) ← svc (.twaiSem semaphoreId (c2tTmo millisec))
  return if ercd = E_TMOUT then 0 else if ercd = E_PAR then -1 else 1

def osSemaphoreRelease (semaphoreId : ID) : Code Status := do
  let (ercd, _) ← svcCtx (.sigSem semaphoreId) (.isigSem semaphoreId)
  return if ercd = E_QOVR then .osErrorResource else if ercd < 0 then .osErrorParameter else .osOK

def osSemaphoreDelete (semaphoreId : ID) : Code Status := do
  let (ercd, _) ← svc (.delSem semaphoreId)
  return if ercd = E_ID ∨ ercd = E_NOEXS then .osErrorParameter
    else if ercd = E_CTX then .osErrorISR
    else if ercd < 0 then .osErrorResource else .osOK

/-- `mem` is what `kernel_malloc` returns. -/
def osMessageCreate (queueSz : BitVec 32) (pool mem : Addr) : Code (Option ID) := do
  let (ercd, _) ← svc (.acreDtq ⟨TA_NULL, queueSz.toNat, pool⟩ mem)
  return if ercd ≤ 0 then none else some ercd

def osMessagePut (queueId : ID) (info millisec : BitVec 32) : Code Status := do
  assert ndebug (validMillisec millisec)
  let (ercd, _) ← svcCtx (.tsndDtq queueId info (c2tTmo millisec)) (.ipsndDtq queueId info)
  return if ercd = E_TMOUT then .osErrorTimeoutResource
    else if ercd = E_PAR then .osErrorParameter
    else if ercd < 0 then .osErrorResource else .osOK

def osMessageGet (queueId : ID) (millisec : BitVec 32) : Code OsEvent := do
  assert ndebug (validMillisec millisec)
  if ← snsCtx then return ⟨.osErrorParameter, none⟩
  let (ercd, out) ← svc (.trcvDtq queueId (c2tTmo millisec))
  return ⟨if ercd = E_TMOUT then (if millisec = 0 then .osOK else .osEventTimeout)
    else .osEventMessage, match out with | .data v => some v | _ => none⟩

end

/-- What `ref_tsk` leaves in a packet with the contents `old`. -/
def rtsk (old : T_RTSK) : AspKernel.Out → T_RTSK
  | .rtsk pk => { pk with
    tskwait := pk.tskwait <|> old.tskwait
    wobjid := pk.wobjid <|> old.wobjid }
  | _ => old

/-- The test that `osSignalSet` and `osSignalClear` make: the flag for which the task waits. -/
def waitsFlg (pk : T_RTSK) : Option ID :=
  if pk.tskstat = .WAI ∧ pk.tskwait = some .FLG then pk.wobjid else none

/-- `old` is what the variable `rtsk` contains before `ref_tsk`. -/
def osSignalSet (old : T_RTSK) (threadId : ID) (signals : BitVec 32) : Code Int := do
  let (_, out) ← svc (.refTsk threadId)
  match waitsFlg (rtsk old out) with
  | some flgid =>
    let _ ← svc (.setFlg flgid signals)
    return 0
  | none => return 0

def osSignalClear (old : T_RTSK) (threadId : ID) (signals : BitVec 32) : Code Int := do
  let (_, out) ← svc (.refTsk threadId)
  match waitsFlg (rtsk old out) with
  | some flgid =>
    let _ ← svc (.clrFlg flgid signals)
    return 0
  | none => return 0

/-- What `ref_flg` leaves in the field `flgptn` of a packet. -/
def rflg (old : FLGPTN) : AspKernel.Out → FLGPTN
  | .rflg _ flgptn => flgptn
  | _ => old

/-- `old` is what the field `flgptn` of the variable `rflg` contains before `ref_flg`. -/
def osSignalWait (ndebug : Bool) (old : FLGPTN) (signals millisec : BitVec 32) : Code OsEvent := do
  assert ndebug (validMillisec millisec)
  let (flgid, _) ← svc (.acreFlg ⟨TA_CLR, 0⟩)
  let (ercd, _) ← svc (.twaiFlg flgid signals TWF_ORW (c2tTmo millisec))
  let (_, out) ← svc (.refFlg flgid)
  if rflg old out = 0 then
    let _ ← svc (.delFlg flgid)
  return ⟨if ercd = E_TMOUT then (if millisec = 0 then .osOK else .osEventTimeout)
    else .osEventMessage, none⟩

end AspKernel.Cmsis
