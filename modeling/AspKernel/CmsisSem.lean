import AspKernel.Cmsis
import AspKernel.ThreadTurn

/-! The semaphores of CMSIS-RTOS. -/

namespace AspKernel.Cmsis
open App
set_option autoImplicit true

inductive SemApi
  | osSemaphoreCreate (count : BitVec 32)
  | osSemaphoreWait (semaphoreId : ID) (millisec : BitVec 32)
  | osSemaphoreRelease (semaphoreId : ID)
  | osSemaphoreDelete (semaphoreId : ID)

namespace SemApi

abbrev Res : SemApi → Type
  | .osSemaphoreCreate _ => Option ID
  | .osSemaphoreWait _ _ => Int
  | .osSemaphoreRelease _ | .osSemaphoreDelete _ => Status

/-- The service calls of a function. -/
def Calls : SemApi → Call → Prop
  | .osSemaphoreCreate count, call => call = .acreSem ⟨TA_NULL, count.toNat, 1⟩
  | .osSemaphoreWait m millisec, call => call = .twaiSem m (c2tTmo millisec)
  | .osSemaphoreRelease m, call => call = .sigSem m ∨ call = .isigSem m
  | .osSemaphoreDelete m, call => call = .delSem m

/-- The result of a function, from the error code of its service call. -/
def value (ercd : ER) : (a : SemApi) → Res a
  | .osSemaphoreCreate _ => if ercd < 0 then none else some ercd
  | .osSemaphoreWait _ _ => if ercd = E_TMOUT then (0 : Int) else if ercd = E_PAR then -1 else 1
  | .osSemaphoreRelease _ =>
    if ercd = E_QOVR then .osErrorResource else if ercd < 0 then .osErrorParameter else .osOK
  | .osSemaphoreDelete _ =>
    if ercd = E_ID ∨ ercd = E_NOEXS then .osErrorParameter
    else if ercd = E_CTX then .osErrorISR
    else if ercd < 0 then .osErrorResource else .osOK

/-- The function is not about the control block of the semaphore `id`, or it names this one. -/
def Names (id : ID) : SemApi → Prop
  | .osSemaphoreCreate _ => True
  | .osSemaphoreWait m _ | .osSemaphoreRelease m | .osSemaphoreDelete m =>
    m = id ∨ index m ≠ index id

end SemApi

def semLib (ndebug : Bool) : Library where
  Api := SemApi
  Res := SemApi.Res
  code
    | .osSemaphoreCreate count => osSemaphoreCreate ndebug count
    | .osSemaphoreWait semaphoreId millisec => osSemaphoreWait ndebug semaphoreId millisec
    | .osSemaphoreRelease semaphoreId => osSemaphoreRelease semaphoreId
    | .osSemaphoreDelete semaphoreId => osSemaphoreDelete semaphoreId

section
variable {ndebug : Bool} {a : SemApi} {hist : Hist} {call : Call}

theorem semLib_tail (ndebug : Bool) (a : SemApi) :
    Tail a.Calls (fun r => SemApi.value r.1 a) (fun _ => False) ((semLib ndebug).code a) := by
  cases a with
  | osSemaphoreCreate count =>
    change Tail _ _ _ (osSemaphoreCreate ndebug count)
    unfold osSemaphoreCreate assert
    split
    · exact .svc rfl fun _ => rfl
    · exact .exit
  | osSemaphoreWait m millisec =>
    change Tail _ _ _ (osSemaphoreWait ndebug m millisec)
    unfold osSemaphoreWait assert
    split
    · exact .svc rfl fun _ => rfl
    · exact .exit
  | osSemaphoreRelease m =>
    refine .snsCtx fun b => ?_
    cases b with
    | true => exact .svc (.inr rfl) fun _ => rfl
    | false => exact .svc (.inl rfl) fun _ => rfl
  | osSemaphoreDelete m => exact .svc rfl fun _ => rfl

end

end AspKernel.Cmsis
