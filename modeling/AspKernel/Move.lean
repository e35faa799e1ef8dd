import AspKernel.Frame
import AspKernel.System

namespace AspKernel
set_option autoImplicit true

namespace Core

/-- No dispatch is due, or none is possible. -/
def Settled (c : Core) : Prop := c.pRuntsk = c.sched.pSchedtsk ∨ c.dspflg = false

/-- The running task is runnable. -/
def Running (c : Core) : Prop := ∀ t, c.pRuntsk = some t → (c.tcb t).tstat.runnable = true

/-- `dspflg` is what `ipmflg` and `disdsp` make it. -/
def FlagsOk (c : Core) : Prop := c.dspflg = (c.ipmflg && !c.disdsp)

def setFlags (c : Core) (ipmflg disdsp dspflg cpulock : Bool) : Core :=
  { c with ipmflg := ipmflg, disdsp := disdsp, dspflg := dspflg, cpulock := cpulock }

/-- A task that is not dormant leaves its queue and loses its time event. -/
def unlink (c : Core) (t : Nat) : Core :=
  if (c.tcb t).tstat.runnable then (c.makeNonRunnable t).1
  else if (c.tcb t).tstat.waiting then (c.waitDequeueWobj t).waitDequeueTmevtb t
  else c

/-- The acquisition of a mutex that is not locked, with the assertion that follows it. -/
def lock (c : Core) (t m : Nat) : Core :=
  let c := (c.mutexAcquire t m).1
  { c with assertOk := c.assertOk && !decide (c.pRuntsk ≠ c.sched.pSchedtsk ∧ c.dspflg) }

/-- The release of a mutex by its holder. -/
def unlock (c : Core) (t m : Nat) : Core × Bool :=
  let c := c.mutexUnlink m
  let r := if c.mtxCeiling m then c.mutexDropPriority t (c.ceilpri m) else (c, false)
  let r' := r.1.mutexRelease m
  (r'.1, r.2 || r'.2)

/-- The initialisation of a mutex, after its wait queue has been emptied. -/
def disown (c : Core) (t m : Nat) : Core × Bool :=
  let c := (c.mutexUnlink m).setLoctsk m none
  if c.mtxCeiling m then c.mutexDropPriority t (c.ceilpri m) else (c, false)

/-- A new base priority, which is the current one where no held mutex has a ceiling. -/
def setBpriority (c : Core) (t newbpri : Nat) : Core × Bool :=
  let c := c.setTcb t { c.tcb t with bpriority := newbpri }
  if c.mutexQueue t = [] ∨ c.mutexScanCeilmtx t = false then c.changePriority t newbpri false
  else (c, false)

end Core

/-- The kinds of objects that have identifiers. -/
inductive ObjKind
  | tsk | wobj (f : WaitFactor) | cyc | alm
  deriving DecidableEq

def Cfg.num (cfg : Cfg) : ObjKind → ObjNum
  | .tsk => cfg.tsk
  | .wobj .SEM => cfg.sem
  | .wobj .FLG => cfg.flg
  | .wobj .SDTQ => cfg.dtq
  | .wobj .SPDQ => cfg.pdq
  | .wobj .MBX => cfg.mbx
  | .wobj .MPF => cfg.mpf
  | .wobj .MTX => cfg.mtx
  | .wobj .DLY | .wobj .SLP | .wobj .RDTQ | .wobj .RPDQ => ⟨0, 0, Nat.le_refl 0⟩
  | .cyc => cfg.cyc
  | .alm => cfg.alm

/-- The state of the exception handling of a task, other than its routine. -/
def TCB.tex (p : TCB) : Bool × TEXPTN × List Bool × Bool × TEXPTN × TEXPTN :=
  (p.enatex, p.texptn, p.texstk, p.texloop, p.texraised, p.texpassed)

/-- The requests that are queued for a task. -/
def TCB.queued (p : TCB) : Bool × Bool := (p.actque, p.wupque)

/-- What the changes of a call are about. -/
structure Scope where
  /-- No mutex is deleted that a task holds, and none is created with `TA_NOEXS`. -/
  unlocked : Prop
  attr : Prop
  /-- Objects of these kinds may be created and deleted. -/
  kinds : ObjKind → Prop
  /-- The memory, the exception handling of tasks, or `ipmflg` may change. -/
  mem : Prop
  tex : Prop
  ipm : Prop
  /-- These cyclic handlers may be started, stopped and deleted. -/
  cyc : Nat → Prop
  /-- The call is about these tasks. -/
  own : Nat → Prop
  /-- These wait queues may be emptied. -/
  init : WQueue → Prop
  /-- The running task may start a wait. -/
  waits : Prop
  /-- The wait of a task of the call may be released forcibly, or the task be ended. -/
  rel : Prop
  ter : Prop

/-- A change of the kernel, and whether a dispatch is due after it. The service calls are made of
these changes; only in queues of `P` do tasks start a wait or complete one, and only tasks of `R`
get another priority while they may wait. -/
inductive Move (cfg : Cfg) (S : Scope) (P : WQueue → Prop) (R : Nat → Prop)
    (c : Core) : Bool → Core → Prop
  | touch (hO : S.own t) (hl : (c.tcb t).Like p) (hi : p.tinib = (c.tcb t).tinib)
    (hx : p.tex = (c.tcb t).tex) (hq : (c.tcb t).tstat = .DORMANT → p.actque = false ∧
      p.wupque = (c.tcb t).wupque) : Move cfg S P R c false (c.setTcb t p)
  | tex (hX : S.tex) (hl : (c.tcb t).Like p)
    (hi : p.tinib = { (c.tcb t).tinib with texrtn := p.tinib.texrtn })
    (hq : p.queued = (c.tcb t).queued) : Move cfg S P R c false (c.setTcb t p)
  | mem (hM : S.mem) (areas : List Area) (freeOk : Bool) :
    Move cfg S P R c false { c with areas := areas, freeOk := freeOk }
  | flags (hc : c.senseContext = false ∨ ipmflg = c.ipmflg ∧ disdsp = c.disdsp)
    (hf : c.FlagsOk → dspflg = (ipmflg && !disdsp))
    (hs : b = false → c.Settled → (c.setFlags ipmflg disdsp dspflg cpulock).Settled)
    (hI : ipmflg = c.ipmflg ∨ S.ipm) :
    Move cfg S P R c b (c.setFlags ipmflg disdsp dspflg cpulock)
  | activate (hO : S.own t) (hf : t ∉ c.freeTcb) (hr : t < cfg.tsk.tmax) (hs : (c.tcb t).tstat = .DORMANT) :
    Move cfg S P R c (c.makeActive t).2 (c.makeActive t).1
  | suspend (hO : S.own t) (hr : (c.tcb t).tstat.runnable = true) (hc : c.senseContext = false)
    (hd : c.pRuntsk = some t → c.dspflg = true) :
    Move cfg S P R c ((c.setTcb t { c.tcb t with tstat := .SUSPENDED }).makeNonRunnable t).2
      ((c.setTcb t { c.tcb t with tstat := .SUSPENDED }).makeNonRunnable t).1
  | setSuspended (hO : S.own t) (hw : (c.tcb t).tstat.waiting = true) (b : Bool) :
    Move cfg S P R c false
      (c.setTcb t { c.tcb t with tstat := { (c.tcb t).tstat with suspended := b } })
  | resume (hO : S.own t) (hs : (c.tcb t).tstat = .SUSPENDED) :
    Move cfg S P R c ((c.setTcb t { c.tcb t with tstat := .RUNNABLE }).makeRunnable t).2
      ((c.setTcb t { c.tcb t with tstat := .RUNNABLE }).makeRunnable t).1
  | block (hW : S.waits) (ht : c.pRuntsk = some t) (hr : (c.tcb t).tstat.runnable = true)
    (hc : c.senseContext = false) (hb : BlockOk c f ev q) (hq : ∀ r ∈ q, P r.1) (w : WInfo)
    (hm : ∀ m tp, q = some ((.MTX, m), tp) → (c.mtxcb m).pLoctsk ≠ none ∧
      ¬(c.mtxCeiling m ∧ (c.tcb t).bpriority < c.ceilpri m)) :
    Move cfg S P R c true (c.block t f w ev q)
  | complete (ht : t ∈ c.sched.queue (.wait q)) (hh : q.1 = .FLG ∨ c.headTsk q = some t) (hq : P q)
    (hw : w.cell = (c.tcb t).winfo.cell) : Move cfg S P R c (((c.queueDelete t).setWinfo t w).waitComplete t).2
      (((c.queueDelete t).setWinfo t w).waitComplete t).1
  | wakeup (hO : S.own t) (hs : (c.tcb t).tstat.waitSlp = true) :
    Move cfg S P R c (c.waitComplete t).2 (c.waitComplete t).1
  | release (hO : S.own t) (hw : (c.tcb t).tstat.waiting = true) (hL : S.rel) :
    Move cfg S P R c (c.waitRelease t).2 (c.waitRelease t).1
  | initQueue (q : WQueue) (hI : S.init q) : Move cfg S P R c (c.initWaitQueue q).2 (c.initWaitQueue q).1
  | setBpriority (hR : R t) (hd : (c.tcb t).tstat ≠ .DORMANT) (hb : newbpri < TNUM_TPRI)
    (hc : c.mutexQueue t ≠ [] ∨ (c.tcb t).tstat.waitMtx = true →
      c.mutexCheckCeilpri t newbpri = true) :
    Move cfg S P R c (c.setBpriority t newbpri).2 (c.setBpriority t newbpri).1
  | rotate (pri : Nat) : Move cfg S P R c (c.rotateReadyQueue pri).2 (c.rotateReadyQueue pri).1
  | lock (ht : c.pRuntsk = some t) (hr : (c.tcb t).tstat.runnable = true) (hs : c.Settled)
    (hn : (c.mtxcb m).pLoctsk = none) (hm : ¬(c.mtxCeiling m ∧ (c.tcb t).bpriority < c.ceilpri m))
    (hex : c.noWobj (.MTX, m) = false) (hP : P (.MTX, m)) :
    Move cfg S P R c false (c.lock t m)
  | unlock (ht : c.pRuntsk = some t) (hr : (c.tcb t).tstat.runnable = true)
    (hn : (c.mtxcb m).pLoctsk = some t) (hP : P (.MTX, m)) :
    Move cfg S P R c (c.unlock t m).2 (c.unlock t m).1
  | disown (hR : R t) (hn : (c.mtxcb m).pLoctsk = some t)
    (hq : c.sched.queue (.wait (.MTX, m)) = []) :
    Move cfg S P R c (c.disown t m).2 (c.disown t m).1
  | terminate (hO : S.own t) (hd : (c.tcb t).tstat ≠ .DORMANT) (hc : c.senseContext = false)
    (hb : c.pRuntsk = some t → b = true) (ht : ((c.unlink t).terminate t).2 = true → b = true)
    (hP : ∀ m, P (.MTX, m)) (hT : S.ter) : Move cfg S P R c b ((c.unlink t).terminate t).1
  | newTsk (hO : S.own t) (ht : c.takeTcb = some (t, c')) (hi : tinib.ipriority < TNUM_TPRI)
    (ha : tinib.tskatr ≠ TA_NOEXS) (hx : tinib.texrtn = false) (hK : S.kinds .tsk) :
    Move cfg S P R c false (c'.initTcb t tinib)
  | delTsk (hO : S.own t) (hn : c.noTsk t = false) (hs : (c.tcb t).tstat = .DORMANT) (ht : t < cfg.tsk.tmax)
    (hd : cfg.tsk.dynamic t = true) (hK : S.kinds .tsk) :
    Move cfg S P R c false
      { c.setTcb t { c.tcb t with tinib := { (c.tcb t).tinib with tskatr := TA_NOEXS } }
        with freeTcb := c.freeTcb ++ [t] }
  | newWobj (hm : WQueue.main (f, i) = (f, i)) (hf : f ≠ .MTX)
    (ht : c.takeWobj (cfg.num (.wobj f)) f = some (i, c')) (ha : atr ≠ TA_NOEXS)
    (hK : S.kinds (.wobj f)) : Move cfg S P R c false (c'.initWobj (f, i) atr)
  | freeWobj (hm : WQueue.main q = q) (hf : q.1 ≠ .MTX)
    (hq : ∀ q', q'.main = q → c.sched.queue (.wait q') = []) (hex : c.noWobj q = false)
    (hd : (cfg.num (.wobj q.1)).tmaxS ≤ q.2 ∧ q.2 < (cfg.num (.wobj q.1)).tmax)
    (hK : S.kinds (.wobj q.1)) : Move cfg S P R c false (c.freeWobjcb q)
  | newMtx (ht : c.takeWobj cfg.mtx .MTX = some (m, c')) (ha : S.attr → atr ≠ TA_NOEXS)
    (hK : S.kinds (.wobj .MTX)) : Move cfg S P R c false { c'.initWobj (.MTX, m) atr with
      mtxcb := Function.update c.mtxcb m ⟨ceilpri, none⟩ }
  | freeMtx (hq : c.sched.queue (.wait (.MTX, m)) = []) (hex : c.noWobj (.MTX, m) = false)
    (hS : S.unlocked → (c.mtxcb m).pLoctsk = none) (hd : cfg.mtx.tmaxS ≤ m ∧ m < cfg.mtx.tmax)
    (hK : S.kinds (.wobj .MTX)) : Move cfg S P R c false (c.freeWobjcb (.MTX, m))
  | newCyc (hl : c.freeCyccb = i :: l) (ht : 0 < cyctim ∧ cyctim ≤ TMAX_RELTIM)
    (hp : cycphs ≤ TMAX_RELTIM) (ha : atr ≠ TA_NOEXS) (hK : S.kinds .cyc) : Move cfg S P R c false
      (Core.setCyc { c with freeCyccb := l } i ⟨atr, cyctim, cycphs, false, evttim⟩)
  | startCyc (hn : i ∉ c.freeCyccb) (hr : i < cfg.cyc.tmax) (hs : (c.cyccb i).cycsta = false)
    (hC : S.cyc i) :
    Move cfg S P R c false
      ((c.setCyc i { c.cyccb i with cycsta := true }).tmevtbEnqueueCyc i (c.cycStart i))
  | stopCyc (hC : S.cyc i) : Move cfg S P R c false (c.stopCyc i)
  | delCyc (hn : i ∉ c.freeCyccb) (hr : i < cfg.cyc.tmax) (hs : (c.cyccb i).cycsta = false)
    (hd : cfg.cyc.dynamic i = true) (hK : S.kinds .cyc) (hex : c.noCyc i = false) (hC : S.cyc i) :
    Move cfg S P R c false { c.setCyc i { c.cyccb i with cycatr := TA_NOEXS } with
      freeCyccb := c.freeCyccb ++ [i] }
  | newAlm (hl : c.freeAlmcb = i :: l) (ha : atr ≠ TA_NOEXS) (hK : S.kinds .alm) : Move cfg S P R c false
      (Core.setAlm { c with freeAlmcb := l } i ⟨atr, false⟩)
  | startAlm (hn : i ∉ c.freeAlmcb) (hr : i < cfg.alm.tmax) (hs : (c.almcb i).almsta = false)
    (ht : time ≤ TMAX_RELTIM) : Move cfg S P R c false
      { c.setAlm i { c.almcb i with almsta := true } with
        tm := c.tm.tmevtbEnqueue (.alm i) time .callAlmhdr }
  | stopAlm (i : Nat) : Move cfg S P R c false (c.stopAlm i)
  | delAlm (hn : i ∉ c.freeAlmcb) (hr : i < cfg.alm.tmax) (hs : (c.almcb i).almsta = false)
    (hd : cfg.alm.dynamic i = true) (hK : S.kinds .alm) (hex : c.noAlm i = false) :
    Move cfg S P R c false { c.setAlm i { c.almcb i with almatr := TA_NOEXS } with
      freeAlmcb := c.freeAlmcb ++ [i] }

/-- Several changes, one after the other. -/
inductive Moves (cfg : Cfg) (S : Scope) (P : WQueue → Prop) (R : Nat → Prop)
    (c : Core) : Bool → Core → Prop
  | refl : Moves cfg S P R c false c
  | step (h : Moves cfg S P R c b c') (h' : Move cfg S P R c' b' c'') :
    Moves cfg S P R c (b || b') c''

section
variable {cfg : Cfg} {S : Scope} {P : WQueue → Prop} {R : Nat → Prop} {c c' c'' : Core}

theorem Moves.one (h : Move cfg S P R c b c') : Moves cfg S P R c b c' := by
  have hs := Moves.step .refl h
  rwa [Bool.false_or] at hs

theorem Moves.trans (h : Moves cfg S P R c b c') (h' : Moves cfg S P R c' b' c'') :
    Moves cfg S P R c (b || b') c'' := by
  induction h' with
  | refl => rwa [Bool.or_false]
  | step _ hm ih =>
    rw [← Bool.or_assoc]
    exact ih.step hm

variable {D : Nat → Bool}

/-- No task is detached. -/
abbrev noD : Nat → Bool := fun _ => false

theorem CoreInv.unlink (h : CoreInv cfg D c) (hd : D t = false)
    (hn : (c.tcb t).tstat ≠ .DORMANT) : CoreInv cfg (Function.update D t true) (c.unlink t) := by
  unfold Core.unlink
  split
  · rename_i hr
    exact h.makeNonRunnable hd hr
  · rename_i hr
    split
    · rename_i hw
      exact h.waitDequeue hd hw
    · rename_i hw
      exact h.detachIdle (h.notFree hn) (Bool.eq_false_iff.2 hr) (Bool.eq_false_iff.2 hw)

theorem frame_unlink (c : Core) (t : Nat) :
    c.Local (c.unlink t) ∧ (c.unlink t).tcb = c.tcb := by
  unfold Core.unlink
  split
  · exact ⟨local_makeNonRunnable c t, rfl⟩
  · split
    · exact ⟨(local_waitDequeueWobj c t).trans (local_waitDequeueTmevtb _ t),
        ((c.waitDequeueWobj t).waitDequeueTmevtb_tcb t).trans (c.waitDequeueWobj_tcb t)⟩
    · exact ⟨.refl c, rfl⟩

theorem CoreInv.setBpriority (h : CoreInv cfg D c) (hd : D t = false)
    (hb : newbpri < TNUM_TPRI) : CoreInv cfg D (c.setBpriority t newbpri).1 := by
  have h1 := h.setTcb_frame (t := t) (p := { c.tcb t with bpriority := newbpri })
    rfl rfl rfl rfl hb (.inl rfl)
  unfold Core.setBpriority
  simp only
  split
  · exact h1.changePriority hd hb false
  · exact h1

theorem CoreInv.unlock (h : CoreInv cfg D c) (hd : D t = false) (m : Nat) :
    CoreInv cfg D (c.unlock t m).1 := by
  have h1 : CoreInv cfg D (c.mutexUnlink m) := h.flags
  unfold Core.unlock
  simp only
  split
  · exact (h1.mutexDropPriority hd _).mutexRelease m
  · exact h1.mutexRelease m

theorem CoreInv.disown (h : CoreInv cfg D c) (hd : D t = false) (m : Nat) :
    CoreInv cfg D (c.disown t m).1 := by
  have h1 : CoreInv cfg D ((c.mutexUnlink m).setLoctsk m none) := h.flags
  unfold Core.disown
  simp only
  split
  · exact h1.mutexDropPriority hd _
  · exact h1

theorem changePriority_raise (hs : c.sched.pSchedtsk = some t) (hlt : new < c.priority t) :
    (c.changePriority t new true).1.sched.pSchedtsk = c.sched.pSchedtsk := by
  unfold Core.changePriority
  simp only [Core.setTcb_self]
  split
  · have hn : (c.setTcb t { c.tcb t with priority := new }).priority t = new :=
      congrArg TCB.priority (c.setTcb_self t _)
    have hle : ¬c.priority t ≤ new := Nat.not_le_of_lt hlt
    have hq := (requeue_pSchedtsk c.sched t (c.priority t) new true).trans hs
    unfold Sched.changePriority
    simp only [hn]
    rw [show (c.setTcb t { c.tcb t with priority := new }).sched = c.sched from rfl, hq]
    simp only [if_pos, hle, if_false]
    exact hq.trans hs.symm
  · split
    · unfold Core.wobjChangePriority
      split
      · unfold Sched.wobjChangePriority Sched.enterWait
        rw [if_pos rfl]
        rfl
      · rfl
    · rfl

theorem Core.pRuntsk_eq (h : c'.cpu = c.cpu) : c'.pRuntsk = c.pRuntsk := congrArg (·.1) h

theorem Core.Settled.of_frame (hs : c.Settled) (hc : c'.cpu = c.cpu)
    (ht : c'.sched.pSchedtsk = c.sched.pSchedtsk ∨ c.dspflg = false) : c'.Settled := by
  unfold Core.Settled at hs ⊢
  rw [Core.pRuntsk_eq hc, Core.dspflg_eq hc]
  rcases ht with ht | ht
  · rwa [ht]
  · exact .inr ht

/-- The assertion after the acquisition of a mutex holds: the running task stays the scheduled
one. -/
theorem lock_settled (ht : c.pRuntsk = some t) (hs : c.Settled) (m : Nat) :
    (c.mutexAcquire t m).1.Settled ∧ (c.mutexAcquire t m).1.cpu = c.cpu ∧
      ((c.mutexAcquire t m).1.sched.pSchedtsk = c.sched.pSchedtsk ∨ c.dspflg = false) := by
  have hcase : (c.mutexAcquire t m).1.cpu = c.cpu ∧
      ((c.mutexAcquire t m).1.sched.pSchedtsk = c.sched.pSchedtsk ∨ c.dspflg = false) := by
    unfold Core.mutexAcquire Core.mutexRaisePriority
    simp only
    split
    · split
      · rename_i hlt
        refine ⟨(local_changePriority _ _ _ _).cpu, ?_⟩
        rcases hs with hs | hs
        · exact .inl (changePriority_raise (hs.symm.trans ht) hlt)
        · exact .inr hs
      · exact ⟨rfl, .inl rfl⟩
    · exact ⟨rfl, .inl rfl⟩
  exact ⟨hs.of_frame hcase.1 hcase.2, hcase⟩

theorem CoreInv.lock (h : CoreInv cfg D c) (hd : D t = false) (ht : c.pRuntsk = some t)
    (hs : c.Settled) (m : Nat) : CoreInv cfg D (c.lock t m) := by
  refine (h.mutexAcquire hd m).assert ?_
  rw [Bool.not_eq_true', decide_eq_false_iff_not]
  rintro ⟨h1, h2⟩
  rcases (lock_settled ht hs m).1 with h | h
  · exact h1 h
  · rw [h] at h2
    cases h2

theorem Move.coreInv (m : Move cfg S P R c b c') (h : CoreInv cfg noD c) : CoreInv cfg noD c' := by
  cases m with
  | touch hO hl hi hx hq =>
    rename_i t p
    refine h.setTcb_frame hl.tstat hl.priority hl.winfo hl.ipriority ?_ (.inl (by rw [hi]))
    rw [hl.bpriority]
    exact (h.task t).bpriority
  | tex hX hl hi hq =>
    rename_i t p
    refine h.setTcb_frame hl.tstat hl.priority hl.winfo hl.ipriority ?_ (.inl (by rw [hi]))
    rw [hl.bpriority]
    exact (h.task t).bpriority
  | mem hM areas freeOk => exact h.flags
  | flags hc hf hs hI => exact h.flags
  | activate hO hf hr hs => exact h.activate rfl hf hr hs
  | suspend hO hr hc hd => exact h.suspend rfl hr
  | setSuspended hO hw b => exact h.setSuspended hw b
  | resume hO hs => exact h.resume rfl hs
  | block hW ht hr hc hb hq w hm => exact h.block rfl hr hb w
  | complete ht hh hq hw => exact h.waitComplete ht hw
  | wakeup hO hs =>
    rename_i t
    have hf : (c.tcb t).tstat.factor = .SLP := beq_iff_eq.1 hs
    have hw : (c.tcb t).tstat.waiting = true := by
      by_contra hw
      rw [(h.task t).legal.factor (Bool.eq_false_iff.2 hw)] at hf
      cases hf
    refine h.wakeup rfl hw ?_
    unfold TStat.waitWobj
    rw [hf]
    decide
  | release hO hw hL => exact h.waitRelease rfl hw
  | initQueue q hI => exact h.initWaitQueue q
  | setBpriority hR hd hb hc => exact h.setBpriority rfl hb
  | rotate pri => exact h.rotateReadyQueue pri
  | lock ht hr hs hn hm hex hP => exact h.lock rfl ht hs _
  | unlock ht hr hn hP => exact h.unlock rfl _
  | disown hR hn hq => exact h.disown rfl _
  | terminate hO hd hc hb ht hP hT =>
    rename_i t
    have h1 := h.unlink (t := t) rfl hd
    have h2 := h1.terminate (Function.update_self ..) ((h.task t).range hd)
    rwa [update_attached rfl] at h2
  | newTsk hO ht hi ha hx hK => exact (h.newTsk ht hi).1
  | delTsk hO hn hs ht hd hK => exact h.delTsk hn rfl hs ht
  | newWobj hm hf ht ha hK => exact (h.newWobj hm ht _).1
  | freeWobj hm hf hq hex hd hK =>
    refine h.freeWobjcb hm hq fun he => ?_
    unfold Core.noWobj at hex
    rw [he, beq_self_eq_true] at hex
    cases hex
  | newMtx ht ha hK => exact (h.newWobj rfl ht _).1.flags
  | freeMtx hq hex hS hd hK =>
    refine h.freeWobjcb rfl (fun q' hq' => ?_) fun he => ?_
    · obtain ⟨f, i⟩ := q'
      cases f <;> cases hq'
      exact hq
    · unfold Core.noWobj at hex
      rw [he, beq_self_eq_true] at hex
      cases hex
  | newCyc hl ht hp ha hK => exact (h.newCyc hl _ rfl).1
  | startCyc hn hr hs => exact h.startCyc hn hr hs _
  | stopCyc _ => exact h.stopCyc _
  | delCyc hn hr hs hd hK hex => exact h.delCyc hn hr hs
  | newAlm hl ha hK => exact h.newAlm hl _
  | startAlm hn hr hs ht => exact h.startAlm hn hr hs _
  | stopAlm i => exact h.stopAlm i
  | delAlm hn hr hs hd hK hex => exact h.delAlm hn hr hs

theorem Moves.coreInv (m : Moves cfg S P R c b c') (h : CoreInv cfg noD c) : CoreInv cfg noD c' := by
  induction m with
  | refl => exact h
  | step _ hm ih => exact hm.coreInv ih

/-- What a change keeps of the states that the processor can be in. -/
structure StepFrame (P : WQueue → Prop) (b : Bool) (c c' : Core) : Prop where
  wait : ∀ u q, ¬P q → (c'.tcb u).loc = some (.wait q) →
    (c.tcb u).loc = some (.wait q) ∧ (c'.tcb u).winfo = (c.tcb u).winfo
  nest : c'.intnest = c.intnest
  runtsk : c'.pRuntsk = c.pRuntsk
  reqflg : c'.reqflg = c.reqflg
  sigtim : c'.sigtim = c.sigtim
  flags : c.FlagsOk → c'.FlagsOk
  disdsp : c.senseContext = true → c'.disdsp = c.disdsp ∧ c'.ipmflg = c.ipmflg
  settled : b = false → c.Settled → c'.Settled
  running : b = false ∧ c.Settled ∨ c.senseContext = true → c.Running → c'.Running

theorem StepFrame.refl : StepFrame P false c c :=
  ⟨fun _ _ _ h => ⟨h, rfl⟩, rfl, rfl, rfl, rfl, id, fun _ => ⟨rfl, rfl⟩, fun _ => id, fun _ => id⟩

theorem senseContext_eq (h : c'.intnest = c.intnest) : c'.senseContext = c.senseContext := by
  unfold Core.senseContext
  rw [h]

theorem StepFrame.trans (h : StepFrame P b c c') (h' : StepFrame P b' c' c'') :
    StepFrame P (b || b') c c'' where
  wait u q hq hl := by
    obtain ⟨h1, h2⟩ := h'.wait u q hq hl
    obtain ⟨h3, h4⟩ := h.wait u q hq h1
    exact ⟨h3, h2.trans h4⟩
  nest := h'.nest.trans h.nest
  runtsk := h'.runtsk.trans h.runtsk
  reqflg := h'.reqflg.trans h.reqflg
  sigtim := h'.sigtim.trans h.sigtim
  flags hf := h'.flags (h.flags hf)
  disdsp hs := by
    obtain ⟨h1, h2⟩ := h.disdsp hs
    obtain ⟨h3, h4⟩ := h'.disdsp ((senseContext_eq h.nest).trans hs)
    exact ⟨h3.trans h1, h4.trans h2⟩
  settled hb hs := by
    obtain ⟨hb, hb'⟩ := Bool.or_eq_false_iff.1 hb
    exact h'.settled hb' (h.settled hb hs)
  running hc hr := by
    rcases hc with ⟨hb, hs⟩ | hc
    · obtain ⟨hb, hb'⟩ := Bool.or_eq_false_iff.1 hb
      exact h'.running (.inl ⟨hb', h.settled hb hs⟩) (h.running (.inl ⟨hb, hs⟩) hr)
    · exact h'.running (.inr ((senseContext_eq h.nest).trans hc)) (h.running (.inr hc) hr)

theorem StepFrame.of_rframe {N : Nat → Prop} (h : RFrame N P b c c')
    (hN : ∀ t, N t → c.pRuntsk = some t → c.senseContext = false ∧ (b = false → ¬c.Settled)) :
    StepFrame P b c c' := by
  have hcpu := h.cpu
  simp only [Core.cpu, Prod.mk.injEq] at hcpu
  obtain ⟨h1, h2, h3, h4, h5, h6, h7, h8⟩ := hcpu
  refine ⟨h.wait, h6, h1, h2, h8, fun hf => ?_, fun _ => ⟨h4, h3⟩, fun hb hs => ?_,
    fun hc hr t ht => ?_⟩
  · unfold Core.FlagsOk at hf ⊢
    rw [h5, h3, h4, hf]
  · exact hs.of_frame h.cpu (h.signal hb)
  · rw [h1] at ht
    refine h.runnable t (fun hn => ?_) (hr t ht)
    obtain ⟨hctx, hset⟩ := hN t hn ht
    rcases hc with ⟨hb, hs⟩ | hc
    · exact hset hb hs
    · rw [hctx] at hc
      cases hc

theorem makeNonRunnable_of_top (hs : c.sched.pSchedtsk = some t) :
    (c.makeNonRunnable t).2 = c.dspflg := by
  unfold Core.makeNonRunnable Sched.makeNonRunnable
  have hs' : (c.sched.queueDelete t).pSchedtsk = some t := hs
  have hs'' (p : Nat) : ((c.sched.queueDelete t).primapClear p).pSchedtsk = some t := hs
  simp only [hs', hs'', if_true]
  split <;> rfl

theorem makeNonRunnable_of_ne (hs : c.sched.pSchedtsk ≠ some t) :
    (c.makeNonRunnable t).1.sched.pSchedtsk = c.sched.pSchedtsk := by
  unfold Core.makeNonRunnable Sched.makeNonRunnable
  have hs' : (c.sched.queueDelete t).pSchedtsk ≠ some t := hs
  have hs'' (p : Nat) : ((c.sched.queueDelete t).primapClear p).pSchedtsk ≠ some t := hs
  simp only [hs', hs'', if_false]
  split <;> rfl

/-- A task that is not running leaves its queue: no dispatch is due. -/
theorem unlink_settled (hs : c.Settled) (ht : c.pRuntsk ≠ some t) : (c.unlink t).Settled := by
  have hcpu := (frame_unlink c t).1.cpu
  have hp := congrArg (·.1) hcpu
  rcases hs with hs | hs
  · left
    rw [hs] at ht
    refine (hp.trans hs).trans ?_
    unfold Core.unlink
    split
    · exact (makeNonRunnable_of_ne ht).symm
    · split
      · exact ((congrArg Sched.pSchedtsk (waitDequeueTmevtb_sched _ t)).trans
          (waitDequeueWobj_pSchedtsk c t)).symm
      · rfl
  · exact .inr ((Core.dspflg_eq hcpu).trans hs)

theorem StepFrame.of_tcb (hc : c'.cpu = c.cpu) (ht : c'.tcb = c.tcb)
    (hs : c'.sched.pSchedtsk = c.sched.pSchedtsk) : StepFrame P false c c' :=
  .of_rframe (N := fun _ => False) (.of_tcb hc ht fun _ => .inl hs) nofun

/-- The end of a task: where it is the running one a dispatch follows. -/
theorem frame_end (h : CoreInv cfg noD c) (hd : (c.tcb t).tstat ≠ .DORMANT)
    (hc : c.senseContext = false) (hb : c.pRuntsk = some t → b = true)
    (ht : ((c.unlink t).terminate t).2 = true → b = true) :
    StepFrame P b c ((c.unlink t).terminate t).1 := by
  have hu := frame_unlink c t
  have hr := frame_terminate (N := (· = t)) (P := P) (h.unlink (t := t) rfl hd) t rfl
  have hcpu := hr.cpu.trans hu.1.cpu
  simp only [Core.cpu, Prod.mk.injEq] at hcpu
  obtain ⟨h1, h2, h3, h4, h5, h6, h7, h8⟩ := hcpu
  have hsense (hs : c.senseContext = true) : False := by
    rw [hc] at hs
    cases hs
  refine ⟨?_, h6, h1, h2, h8, fun hf => ?_, fun hs => (hsense hs).elim, fun hb' hs => ?_,
    fun hcase hrun u hu' => ?_⟩
  · have hw := hr.wait
    rwa [hu.2] at hw
  · unfold Core.FlagsOk at hf ⊢
    rw [h5, h3, h4, hf]
  · have hne : c.pRuntsk ≠ some t := fun he => by
      rw [hb he] at hb'
      cases hb'
    have hs1 := unlink_settled hs hne
    have hsig := hr.signal (by
      by_contra hl
      rw [ht (Bool.not_eq_false _ ▸ hl)] at hb'
      cases hb')
    exact hs1.of_frame hr.cpu hsig
  · rcases hcase with ⟨hb', hs⟩ | hs
    · rw [h1] at hu'
      refine hr.runnable u (fun he => ?_) ?_
      · rw [he] at hu'
        rw [hb hu'] at hb'
        cases hb'
      · rw [hu.2]
        exact hrun u hu'
    · exact (hsense hs).elim

variable {N : Nat → Prop}

theorem mutexRaisePriority_frame (c : Core) (t new : Nat) :
    RFrame N P (c.mutexRaisePriority t new).2 c (c.mutexRaisePriority t new).1 := by
  unfold Core.mutexRaisePriority
  split
  · exact frame_changePriority ..
  · exact .refl

theorem mutexDropPriority_frame (c : Core) (t old : Nat) :
    RFrame N P (c.mutexDropPriority t old).2 c (c.mutexDropPriority t old).1 := by
  unfold Core.mutexDropPriority
  split
  · simp only
    split
    · exact frame_changePriority ..
    · exact .refl
  · exact .refl

theorem frame_mutexAcquire (c : Core) (t m : Nat) :
    RFrame N P (c.mutexAcquire t m).2 c (c.mutexAcquire t m).1 := by
  unfold Core.mutexAcquire
  simp only
  split
  · have h0 : RFrame N P false c { c.setLoctsk m (some t) with
        mutexQueue := Function.update c.mutexQueue t (m :: c.mutexQueue t) } :=
      .of_tcb rfl rfl fun _ => .inl rfl
    have h := h0.trans (mutexRaisePriority_frame _ t
      (Core.ceilpri { c.setLoctsk m (some t) with
        mutexQueue := Function.update c.mutexQueue t (m :: c.mutexQueue t) } m))
    rw [Bool.false_or] at h
    exact h
  · exact .of_tcb rfl rfl fun _ => .inl rfl

/-- The drop of the priority that follows the unlinking of a mutex. -/
theorem frame_drop (c' : Core) (hc : c'.cpu = c.cpu) (ht : c'.tcb = c.tcb)
    (hs : c'.sched.pSchedtsk = c.sched.pSchedtsk) (t m : Nat) :
    RFrame N P (if c'.mtxCeiling m then c'.mutexDropPriority t (c'.ceilpri m) else (c', false)).2 c
      (if c'.mtxCeiling m then c'.mutexDropPriority t (c'.ceilpri m) else (c', false)).1 := by
  have h0 : RFrame N P false c c' := .of_tcb hc ht fun _ => .inl hs
  split
  · have h := h0.trans (mutexDropPriority_frame c' t (c'.ceilpri m))
    rwa [Bool.false_or] at h
  · exact h0

theorem frame_unlock (h : CoreInv cfg D c) (hd : D t = false) (m : Nat) :
    RFrame N P (c.unlock t m).2 c (c.unlock t m).1 := by
  have h1 : CoreInv cfg D (c.mutexUnlink m) := h.flags
  have hdrop := frame_drop (N := N) (P := P) (c := c) (c.mutexUnlink m) rfl rfl rfl t m
  refine hdrop.trans (frame_mutexRelease (show CoreInv cfg D _ from ?_) m)
  split
  · exact h1.mutexDropPriority hd _
  · exact h1

theorem frame_disown (c : Core) (t m : Nat) : RFrame N P (c.disown t m).2 c (c.disown t m).1 :=
  frame_drop (c := c) ((c.mutexUnlink m).setLoctsk m none) rfl rfl rfl t m

theorem frame_setBpriority (c : Core) (t new : Nat) :
    RFrame N P (c.setBpriority t new).2 c (c.setBpriority t new).1 := by
  have h0 : RFrame N P false c (c.setTcb t { c.tcb t with bpriority := new }) := by
    refine .of_update rfl rfl (fun _ => .inl rfl) (fun q _ hq => ⟨?_, rfl⟩) (fun _ hr => hr)
    obtain ⟨h1, h2, h3⟩ := TCB.loc_eq_wait.1 hq
    exact TCB.loc_eq_wait.2 ⟨h1, h2, h3⟩
  unfold Core.setBpriority
  simp only
  split
  · have h := h0.trans (frame_changePriority _ t new false)
    rwa [Bool.false_or] at h
  · exact h0

theorem takeWobj_eq (h : c.takeWobj n f = some (i, c')) :
    ∃ l, c.freeWobj f = i :: l ∧ c' = { c with freeWobj := Function.update c.freeWobj f l } := by
  unfold Core.takeWobj at h
  split at h
  · cases h
  · rename_i j l hl
    split at h
    · cases h
    · cases h
      exact ⟨l, hl, rfl⟩

theorem takeTcb_eq (h : c.takeTcb = some (t, c')) :
    ∃ l, c.freeTcb = t :: l ∧ c' = { c with freeTcb := l } := by
  unfold Core.takeTcb at h
  split at h
  · cases h
  · rename_i u l hl
    cases h
    exact ⟨l, hl, rfl⟩

theorem frame_stopCyc (c : Core) (i : Nat) : StepFrame P false c (c.stopCyc i) := by
  unfold Core.stopCyc
  split
  · exact .of_tcb rfl rfl rfl
  · exact .refl

theorem frame_stopAlm (c : Core) (i : Nat) : StepFrame P false c (c.stopAlm i) := by
  unfold Core.stopAlm
  split
  · exact .of_tcb rfl rfl rfl
  · exact .refl

/-- A change after which every task that was runnable still is. -/
theorem StepFrame.of_rframe' (h : RFrame (fun _ => False) P b c c') : StepFrame P b c c' :=
  .of_rframe h nofun

theorem Move.frame (m : Move cfg S P R c b c') (h : CoreInv cfg noD c) : StepFrame P b c c' := by
  cases m with
  | touch hO hl hi hx hq => exact .of_rframe' (frame_setTcb hl).1
  | tex hX hl hi hq => exact .of_rframe' (frame_setTcb hl).1
  | mem hM areas freeOk => exact .of_tcb rfl rfl rfl
  | flags hc hf hs hI =>
    refine ⟨fun _ _ _ h => ⟨h, rfl⟩, rfl, rfl, rfl, rfl, hf, fun hctx => ?_, hs, fun _ hr => hr⟩
    rcases hc with hc | ⟨h1, h2⟩
    · rw [hc] at hctx
      cases hctx
    · exact ⟨h2, h1⟩
  | activate hO hf hr hs => exact .of_rframe' (frame_makeActive c _).1
  | suspend hO hr hc hd =>
    rename_i t
    refine .of_rframe (frame_suspend (N := (· = t)) c t rfl).1 ?_
    rintro u rfl hu
    refine ⟨hc, fun hb hs => ?_⟩
    rcases hs with hs | hs
    · rw [makeNonRunnable_of_top (c := c.setTcb u _) (hs.symm.trans hu)] at hb
      exact Bool.false_ne_true (hb.symm.trans (hd hu))
    · exact Bool.false_ne_true (hs.symm.trans (hd hu))
  | setSuspended hO hw b => exact .of_rframe' (frame_setSuspended c _ b hw).1
  | resume hO hs => exact .of_rframe' (frame_resume c _).1
  | block hW ht hr hc hb hq w hm =>
    rename_i t f ev q
    refine .of_rframe (frame_block (N := (· = t)) c t f w ev q rfl hq hb.wobj
      fun r hr => (hb.queue r hr).1).1 ?_
    rintro u rfl _
    exact ⟨hc, nofun⟩
  | complete ht hh hq hw =>
    exact .of_rframe' (frame_waitComplete _ (TCB.loc_eq_wait.1 (h.of_mem ht).2).1).1
  | wakeup hO hs =>
    rename_i t
    have hf : (c.tcb t).tstat.factor = .SLP := beq_iff_eq.1 hs
    refine .of_rframe' (frame_wakeup ?_).1
    refine (h.task t).legal.not_runnable ?_
    by_contra hw
    rw [(h.task t).legal.factor (Bool.eq_false_iff.2 hw)] at hf
    cases hf
  | release hO hw hL => exact .of_rframe' (frame_waitRelease ((h.task _).legal.not_runnable hw)).1
  | initQueue q hI => exact .of_rframe' (frame_initWaitQueue h q).1
  | setBpriority hR hd hb hc => exact .of_rframe' (frame_setBpriority c _ _)
  | rotate pri => exact .of_rframe' (frame_rotate c pri).1
  | lock ht hr hs hn hm hex hP =>
    rename_i t m
    have hl := lock_settled ht hs m
    have hf := frame_mutexAcquire (N := fun _ => False) (P := P) c t m
    exact .of_rframe' ⟨hl.2.1, fun _ => hl.2.2, hf.wait, hf.runnable⟩
  | unlock ht hr hn hP => exact .of_rframe' (frame_unlock h rfl _)
  | disown hR hn hq => exact .of_rframe' (frame_disown c _ _)
  | terminate hO hd hc hb ht hP hT => exact frame_end h hd hc hb ht
  | newTsk hO ht hi ha hx hK =>
    rename_i t cc tinib
    obtain ⟨_, _, _, _, hs⟩ := h.newTsk ht hi
    obtain ⟨l, _, rfl⟩ := takeTcb_eq ht
    have htcb : (Core.initTcb { c with freeTcb := l } t tinib).tcb = Function.update c.tcb t
        ((Core.initTcb { c with freeTcb := l } t tinib).tcb t) := by
      unfold Core.initTcb Core.makeDormant Core.setTcb
      simp only [Function.update_idem, Function.update_self]
    refine .of_rframe' (.of_update rfl htcb (fun _ => .inl rfl) (fun q _ hq => ?_) fun _ hr => ?_)
    · have hw := (TCB.loc_eq_wait.1 hq).2.1
      unfold Core.initTcb Core.makeDormant Core.setTcb at hw
      simp only [Function.update_self] at hw
      cases hw
    · rw [hs] at hr
      cases hr
  | delTsk hO hn hs ht hd hK =>
    exact .of_rframe' (.of_update rfl rfl (fun _ => .inl rfl) (fun q _ hq => ⟨hq, rfl⟩)
      fun _ hr => hr)
  | newWobj hm hf ht ha hK =>
    obtain ⟨l, _, rfl⟩ := takeWobj_eq ht
    exact .of_tcb rfl rfl rfl
  | freeWobj hm hf hq hex hd hK => exact .of_tcb rfl rfl rfl
  | newMtx ht ha hK =>
    obtain ⟨l, _, rfl⟩ := takeWobj_eq ht
    exact .of_tcb rfl rfl rfl
  | freeMtx hq hex hS hd hK => exact .of_tcb rfl rfl rfl
  | newCyc hl ht hp ha hK => exact .of_tcb rfl rfl rfl
  | startCyc hn hr hs => exact .of_tcb rfl rfl rfl
  | stopCyc _ => exact frame_stopCyc c _
  | delCyc hn hr hs hd hK hex => exact .of_tcb rfl rfl rfl
  | newAlm hl ha hK => exact .of_tcb rfl rfl rfl
  | startAlm hn hr hs ht => exact .of_tcb rfl rfl rfl
  | stopAlm i => exact frame_stopAlm c i
  | delAlm hn hr hs hd hK hex => exact .of_tcb rfl rfl rfl

theorem Moves.frame (m : Moves cfg S P R c b c') (h : CoreInv cfg noD c) : StepFrame P b c c' := by
  induction m with
  | refl => exact .refl
  | step hs hm ih => exact ih.trans (hm.frame (hs.coreInv h))

end

end AspKernel
