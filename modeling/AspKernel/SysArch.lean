import AspKernel.Code

/-! `sys_arch.c`: mailboxes, semaphores, the critical section and the time base of lwIP. -/

namespace AspKernel.SysArch
open App
set_option autoImplicit true

abbrev ErrT := Int

def ERR_OK : ErrT := 0
def ERR_MEM : ErrT := -1
def SYS_ARCH_TIMEOUT : BitVec 32 := 0xffffffff
def SYS_MBOX_EMPTY : BitVec 32 := SYS_ARCH_TIMEOUT
def MB_SIZE : Int := 8

/-- What a receive stores in `*msg`. -/
def message : AspKernel.Out → Option IntPtr
  | .data v => some v
  | _ => none

/-- The result and the `id` that is stored in the mailbox; `mem` is what `kernel_malloc` returns. -/
def sysMboxNew (queueSz : BitVec 32) (mem : Addr) : Code (ErrT × ID) := do
  if MB_SIZE < queueSz.toInt then error
  let (id, _) ← svc (.acreDtq ⟨TA_NULL, queueSz.toNat, 0⟩ mem)
  return (if id = E_ID then ERR_MEM else ERR_OK, id)

def sysMboxFree (mbox : ID) : Code Unit := do
  let (ercd, _) ← svc (.delDtq mbox)
  if ercd ≠ E_OK then error

def sysMboxPost (mbox : ID) (msg : IntPtr) : Code Unit := do
  let (ercd, _) ← svc (.sndDtq mbox msg)
  if ercd ≠ E_OK then error

def sysMboxTrypost (mbox : ID) (msg : IntPtr) : Code ErrT := do
  let (ercd, _) ← svc (.sndDtq mbox msg)
  return if ercd = E_OK then ERR_OK else ERR_MEM

/-- The milliseconds since a reading of the ticker. -/
def elapsed (start : BitVec 32) : Code (BitVec 32) := do
  return ((← usTickerRead) - start) / 1000

/-- The result, and `*msg` where it is stored. -/
def sysArchMboxFetch (mbox : ID) (timeout : BitVec 32) : Code (BitVec 32 × Option IntPtr) := do
  let start ← usTickerRead
  if timeout ≠ 0 then
    let (ercd, out) ← svc (.trcvDtq mbox timeout)
    if ercd = E_TMOUT then return (SYS_ARCH_TIMEOUT, message out)
    return (← elapsed start, message out)
  else
    let (ercd, out) ← svc (.rcvDtq mbox)
    if ercd ≠ E_OK then error
    return (← elapsed start, message out)

def sysArchMboxTryfetch (mbox : ID) : Code (BitVec 32 × Option IntPtr) := do
  let (ercd, out) ← svc (.prcvDtq mbox)
  if ercd = E_TMOUT then return (SYS_MBOX_EMPTY, message out)
  return (0, message out)

/-- The result, and the `id` where it is stored in the semaphore. -/
def sysSemNew (count : BitVec 8) : Code (ErrT × Option ID) := do
  let (ercd, _) ← svc (.acreSem ⟨TA_NULL, count.toNat, 1⟩)
  return if ercd < 0 then (ERR_MEM, none) else (ERR_OK, some ercd)

def sysArchSemWait (sem : ID) (timeout : BitVec 32) : Code (BitVec 32) := do
  let start ← usTickerRead
  if timeout ≠ 0 then
    let (ercd, _) ← svc (.twaiSem sem timeout)
    if ercd = E_TMOUT then return SYS_ARCH_TIMEOUT
    elapsed start
  else
    let _ ← svc (.waiSem sem)
    elapsed start

def sysSemSignal (sem : ID) : Code Unit := do
  let _ ← svcCtx (.sigSem sem) (.isigSem sem)

def sysSemFree (sem : ID) : Code Unit := do
  let (ercd, _) ← svc (.delSem sem)
  if ercd ≠ E_OK then error

/-- The value of `lwip_sys_mutex`. -/
def sysInit : Code ID := do
  let _ ← usTickerRead
  let (lwipSysMutex, _) ← svc (.acreSem ⟨TA_NULL, 1, 1⟩)
  if lwipSysMutex < 0 then error
  return lwipSysMutex

def sysArchProtect (lwipSysMutex : ID) : Code Int := do
  let (ercd, _) ← svc (.waiSem lwipSysMutex)
  if ercd ≠ E_OK then error
  return 1

def sysArchUnprotect (lwipSysMutex : ID) : Code Unit := do
  let (ercd, _) ← svc (.sigSem lwipSysMutex)
  if ercd ≠ E_OK then error

def sysNow : Code (BitVec 32) := do
  return (← usTickerRead) / 1000

section
variable {hist : List (Prog.Entry Op Op.Out τ)}

theorem sysNow_ret (h : Prog.Trace sysNow hist (.ret v)) :
    ∃ r t, hist = [⟨.usTickerRead, r, t⟩] ∧ v = r / 1000 := by
  obtain ⟨r, t, l, rfl, h'⟩ := h.of_call
  obtain ⟨rfl, rfl⟩ := h'.of_ret
  exact ⟨r, t, rfl, rfl⟩

theorem elapsed_ret {f : BitVec 32 → β}
    (h : Prog.Trace (do return f (← elapsed start)) hist (.ret v)) :
    ∃ r t, hist = [⟨.usTickerRead, r, t⟩] ∧ v = f ((r - start) / 1000) := by
  obtain ⟨r, t, l, rfl, h'⟩ := h.of_call
  obtain ⟨rfl, rfl⟩ := h'.of_ret
  exact ⟨r, t, rfl, rfl⟩

/-- The steps of a call that returns: two readings of the ticker, unless the time-out has passed. -/
theorem sysArchMboxFetch_ret (h : Prog.Trace (sysArchMboxFetch mbox timeout) hist (.ret v)) :
    ∃ start t ercd out t' l,
      hist = ⟨.usTickerRead, start, t⟩ ::
        ⟨.svc (if timeout ≠ 0 then .trcvDtq mbox timeout else .rcvDtq mbox), (ercd, out), t'⟩ :: l ∧
      v.2 = message out ∧ (timeout = 0 → ercd = E_OK) ∧
      (timeout ≠ 0 ∧ ercd = E_TMOUT ∧ l = [] ∧ v.1 = SYS_ARCH_TIMEOUT ∨
        (timeout ≠ 0 → ercd ≠ E_TMOUT) ∧
          ∃ now t, l = [⟨.usTickerRead, now, t⟩] ∧ v.1 = (now - start) / 1000) := by
  obtain ⟨start, t, l, rfl, h'⟩ := h.of_call
  change Prog.Trace (if timeout ≠ 0 then _ else _) _ _ at h'
  split at h'
  · rename_i ht
    obtain ⟨⟨ercd, out⟩, t', l, rfl, h2⟩ := h'.of_call
    change Prog.Trace (if ercd = E_TMOUT then _ else _) _ _ at h2
    refine ⟨start, t, ercd, out, t', l, by rw [if_pos ht], ?_⟩
    split at h2
    · obtain ⟨rfl, rfl⟩ := h2.of_ret
      exact ⟨rfl, fun h => absurd h ht, .inl ⟨ht, ‹_›, rfl, rfl⟩⟩
    · obtain ⟨r, t, rfl, rfl⟩ := elapsed_ret h2
      exact ⟨rfl, fun h => absurd h ht, .inr ⟨fun _ => ‹_›, r, t, rfl, rfl⟩⟩
  · rename_i ht
    obtain ⟨⟨ercd, out⟩, t', l, rfl, h2⟩ := h'.of_call
    change Prog.Trace (if ercd ≠ E_OK then _ else _) _ _ at h2
    refine ⟨start, t, ercd, out, t', l, by rw [if_neg ht], ?_⟩
    split at h2
    · obtain ⟨r, -⟩ := h2.of_call
      cases r
    · obtain ⟨r, t, rfl, rfl⟩ := elapsed_ret h2
      exact ⟨rfl, fun _ => not_not.1 ‹_›, .inr ⟨fun h => absurd h ht, r, t, rfl, rfl⟩⟩

theorem sysArchSemWait_ret (h : Prog.Trace (sysArchSemWait sem timeout) hist (.ret v)) :
    ∃ start t ercd out t' l,
      hist = ⟨.usTickerRead, start, t⟩ ::
        ⟨.svc (if timeout ≠ 0 then .twaiSem sem timeout else .waiSem sem), (ercd, out), t'⟩ :: l ∧
      (timeout ≠ 0 ∧ ercd = E_TMOUT ∧ l = [] ∧ v = SYS_ARCH_TIMEOUT ∨
        (timeout ≠ 0 → ercd ≠ E_TMOUT) ∧
          ∃ now t, l = [⟨.usTickerRead, now, t⟩] ∧ v = (now - start) / 1000) := by
  obtain ⟨start, t, l, rfl, h'⟩ := h.of_call
  change Prog.Trace (if timeout ≠ 0 then _ else _) _ _ at h'
  split at h'
  · rename_i ht
    obtain ⟨⟨ercd, out⟩, t', l, rfl, h2⟩ := h'.of_call
    change Prog.Trace (if ercd = E_TMOUT then _ else _) _ _ at h2
    refine ⟨start, t, ercd, out, t', l, by rw [if_pos ht], ?_⟩
    split at h2
    · obtain ⟨rfl, rfl⟩ := h2.of_ret
      exact .inl ⟨ht, ‹_›, rfl, rfl⟩
    · obtain ⟨r, t, rfl, rfl⟩ := elapsed_ret (f := id) h2
      exact .inr ⟨fun _ => ‹_›, r, t, rfl, rfl⟩
  · rename_i ht
    obtain ⟨⟨ercd, out⟩, t', l, rfl, h2⟩ := h'.of_call
    refine ⟨start, t, ercd, out, t', l, by rw [if_neg ht], ?_⟩
    obtain ⟨r, t, rfl, rfl⟩ := elapsed_ret (f := id) h2
    exact .inr ⟨fun h => absurd h ht, r, t, rfl, rfl⟩

end

end AspKernel.SysArch
