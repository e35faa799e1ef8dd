import AspKernel.CoreInv

namespace AspKernel
set_option autoImplicit true

theorem TCB.loc_eq_wait {p : TCB} : p.loc = some (.wait q) ↔
    p.tstat.runnable = false ∧ p.tstat.waiting = true ∧ p.tstat.waitWobj = true ∧
      p.tstat.factor = q.1 ∧ p.winfo.wobjcb = q.2 := by
  unfold TCB.loc
  cases hr : p.tstat.runnable
  · by_cases hw : p.tstat.waiting = true ∧ p.tstat.waitWobj = true
    · rw [if_neg Bool.false_ne_true, if_pos hw]
      simp only [Option.some.injEq, TaskQueue.wait.injEq, hw, true_and, Prod.ext_iff]
    · rw [if_neg Bool.false_ne_true, if_neg hw]
      constructor
      · exact nofun
      · rintro ⟨_, h1, h2, _⟩
        exact absurd ⟨h1, h2⟩ hw
  · rw [if_pos rfl]
    constructor
    · exact nofun
    · exact fun h => absurd h.1 (by decide)

namespace Core

@[simp] theorem setWinfo_tcb (c : Core) (t : Nat) (w : WInfo) :
    (c.setWinfo t w).tcb t = { c.tcb t with winfo := w } := setTcb_self ..

theorem setWinfo_eq_self (c : Core) (t : Nat) : c.setWinfo t (c.tcb t).winfo = c :=
  c.setTcb_eq_self t

theorem waitDequeueTmevtb_tcb (c : Core) (t : Nat) : (c.waitDequeueTmevtb t).tcb = c.tcb := by
  unfold waitDequeueTmevtb
  split <;> rfl

theorem waitDequeueWobj_tcb (c : Core) (t : Nat) : (c.waitDequeueWobj t).tcb = c.tcb := by
  unfold waitDequeueWobj
  split <;> rfl

theorem waitDequeueWobj_eq {c : Core} (h : (c.tcb t).tstat.waitWobj = true) :
    c.waitDequeueWobj t = c.queueDelete t := if_pos h

/-- The time event block of a wait is all that its end looks at. -/
theorem waitDequeueTmevtb_setWinfo {c : Core} (hw : w.cell = (c.tcb t).winfo.cell) :
    (c.setWinfo t w).waitDequeueTmevtb t = (c.waitDequeueTmevtb t).setWinfo t w := by
  have ht : w.tmevtb = (c.tcb t).winfo.tmevtb := by
    unfold WInfo.tmevtb
    rw [hw]
  unfold waitDequeueTmevtb
  rw [setWinfo_tcb, show (TCB.winfo { c.tcb t with winfo := w }).tmevtb = _ from ht]
  cases (c.tcb t).winfo.tmevtb <;> rfl

end Core

section
variable {cfg : Cfg} {D : Nat → Bool} {c : Core}

/-- A task in a wait queue waits there. -/
theorem CoreInv.of_mem (h : CoreInv cfg D c) (ht : t ∈ c.sched.queue (.wait q)) :
    D t = false ∧ (c.tcb t).loc = some (.wait q) := by
  have hl := h.sched.linked.mem.1 ht
  cases hd : D t with
  | true =>
    rw [Core.loc_detached hd] at hl
    cases hl
  | false =>
    rw [Core.loc_attached hd] at hl
    exact ⟨rfl, hl⟩

theorem mem_of_headTsk (h : c.headTsk q = some t) : t ∈ c.sched.queue (.wait q) :=
  List.mem_of_mem_head? h

theorem not_dormant_of_waiting (hw : (c.tcb t).tstat.waiting = true) :
    (c.tcb t).tstat ≠ .DORMANT := fun he => by
  rw [he] at hw
  cases hw

theorem TStat.Legal.not_runnable {s : TStat} (h : s.Legal) (hw : s.waiting = true) :
    s.runnable = false := by
  by_contra hr
  rw [(h.runnable (Bool.not_eq_false _ ▸ hr)).1] at hw
  cases hw

/-- A waiting task leaves the queue of the object it waits for. -/
theorem CoreInv.sched_waitDequeueWobj (h : CoreInv cfg D c) (hd : D t = false)
    (hw : (c.tcb t).tstat.waiting = true) :
    SchedInv (Function.update (c.loc D) t none) c.priority c.tpri (c.waitDequeueWobj t).sched := by
  have hr := (h.task t).legal.not_runnable hw
  unfold Core.waitDequeueWobj
  split
  · refine h.sched.queueDelete fun p hp => ?_
    rw [Core.loc_attached hd] at hp
    unfold TCB.loc at hp
    rw [hr, if_neg Bool.false_ne_true] at hp
    split at hp <;> cases hp
  · rename_i hq
    have hl : c.loc D t = none := by
      rw [Core.loc_attached hd]
      unfold TCB.loc
      rw [hr, if_neg Bool.false_ne_true, if_neg fun h' => hq h'.2]
    rw [← hl, Function.update_eq_self]
    exact h.sched

theorem CoreInv.timer_waitDequeueTmevtb (h : CoreInv cfg D c) (hd : D t = false)
    (hw : (c.tcb t).tstat.waiting = true) :
    TimerInv (Function.update (c.expects D) (.tsk t) false) c.callbackOf
      (c.waitDequeueTmevtb t).tm := by
  have hc := (h.task t).cell hd hw
  have he : c.expects D (.tsk t) = (c.tcb t).winfo.tmo.isSome := by
    simp only [Core.expects, hd, TCB.timed, hw, Bool.not_false, Bool.true_and]
  unfold Core.waitDequeueTmevtb WInfo.tmevtb
  rw [hc]
  cases ht : (c.tcb t).winfo.tmo with
  | none =>
    rw [ht] at he
    exact h.timer.same he
  | some tmout =>
    rw [ht] at he
    exact h.timer.tmevtbDequeue he

theorem waitDequeue_eq (c : Core) (t : Nat) : (c.waitDequeueWobj t).waitDequeueTmevtb t =
    { c with sched := (c.waitDequeueWobj t).sched, tm := (c.waitDequeueTmevtb t).tm } := by
  unfold Core.waitDequeueWobj
  split
  · have hq : ((c.queueDelete t).tcb t).winfo.tmevtb = (c.tcb t).winfo.tmevtb := rfl
    unfold Core.waitDequeueTmevtb
    rw [hq]
    split <;> rfl
  · unfold Core.waitDequeueTmevtb
    split <;> rfl

/-- A waiting task is detached. -/
theorem CoreInv.waitDequeue (h : CoreInv cfg D c) (hd : D t = false)
    (hw : (c.tcb t).tstat.waiting = true) :
    CoreInv cfg (Function.update D t true) ((c.waitDequeueWobj t).waitDequeueTmevtb t) := by
  rw [waitDequeue_eq]
  exact h.detach (h.notFree (not_dormant_of_waiting hw)) (h.sched_waitDequeueWobj hd hw)
    (h.timer_waitDequeueTmevtb hd hw)

theorem TStat.Legal.dormant : DORMANT.Legal := ⟨nofun, fun _ => rfl⟩
theorem TStat.Legal.running : RUNNABLE.Legal := ⟨fun _ => ⟨rfl, rfl⟩, fun _ => rfl⟩
theorem TStat.Legal.suspended : SUSPENDED.Legal := ⟨nofun, fun _ => rfl⟩
theorem TStat.Legal.blocked (f : WaitFactor) : (WAITING f).Legal := ⟨nofun, nofun⟩

theorem TaskInv.setTstat (h : TaskInv cfg d t p) (hs : s.Legal)
    (hr : s ≠ .DORMANT → t < cfg.tsk.tmax) : TaskInv cfg true t { p with tstat := s } :=
  ⟨hs, h.priority, h.bpriority, h.ipriority, nofun, nofun, hr⟩

theorem TaskInv.setWinfo (h : TaskInv cfg d t p) (w : WInfo) :
    TaskInv cfg true t { p with winfo := w } :=
  ⟨h.legal, h.priority, h.bpriority, h.ipriority, nofun, nofun, h.range⟩

theorem CoreInv.setWinfo (h : CoreInv cfg D c) (hd : D t = true) (w : WInfo) :
    CoreInv cfg D (c.setWinfo t w) := h.setTcb_detached hd ((h.task t).setWinfo w)

theorem CoreInv.setWercd (h : CoreInv cfg D c) (hd : D t = true) (e : ER) :
    CoreInv cfg D (c.setWercd t e) := h.setWinfo hd _

/-- What the invariant does not look at. -/
theorem CoreInv.flags (h : CoreInv cfg D c) : CoreInv cfg D { c with
    pRuntsk := pRuntsk, reqflg := reqflg, ipmflg := ipmflg, disdsp := disdsp, dspflg := dspflg,
    mtxcb := mtxcb, mutexQueue := mutexQueue, intnest := intnest, cpulock := cpulock,
    sigtim := sigtim, areas := areas, freeOk := freeOk } where
  sched := h.sched
  timer := h.timer
  task := h.task
  free := ⟨h.free.1, h.free.2, h.free.3, h.free.4, h.free.5, h.free.6, h.free.7, h.free.8,
    h.free.9, h.free.10⟩
  exist := h.exist
  asserts := h.asserts

theorem CoreInv.assert (h : CoreInv cfg D c) (hb : b = true) :
    CoreInv cfg D { c with assertOk := c.assertOk && b } where
  sched := h.sched
  timer := h.timer
  task := h.task
  free := ⟨h.free.1, h.free.2, h.free.3, h.free.4, h.free.5, h.free.6, h.free.7, h.free.8,
    h.free.9, h.free.10⟩
  exist := h.exist
  asserts := by rw [hb, Bool.and_true, h.asserts]

/-- The end of a wait, for a detached task: it is runnable again or suspended. -/
theorem CoreInv.makeNonWait (h : CoreInv cfg D c) (hd : D t = true)
    (hw : (c.tcb t).tstat.waiting = true) :
    CoreInv cfg (Function.update D t false) (c.makeNonWait t).1 := by
  have ht := h.task t
  have hrange := ht.range (not_dormant_of_waiting hw)
  have ha := h.assert hw
  unfold Core.makeNonWait
  simp only
  split
  · refine (ha.setTcb_detached hd (ht.setTstat .suspended fun _ => hrange)).attachIdle hd ?_ ?_
    · rw [Core.setTcb_self]
      rfl
    · rw [Core.setTcb_self]
      rfl
  · refine (ha.setTcb_detached hd (ht.setTstat .running fun _ => hrange)).makeRunnable hd ?_
    rw [Core.setTcb_self]
    rfl

/-- A wait ends: the task has been detached, and its error code is set. -/
theorem CoreInv.endWait (h : CoreInv cfg (Function.update D t true) c)
    (hw : (c.tcb t).tstat.waiting = true) (hd : D t = false) (e : ER) :
    CoreInv cfg D ((c.setWercd t e).makeNonWait t).1 := by
  have hself : Function.update D t true t = true := Function.update_self ..
  have hr := (h.setWercd hself e).makeNonWait hself (by
    rw [Core.setWercd, Core.setWinfo_tcb]
    exact hw)
  rwa [Function.update_idem, Function.update_eq_iff.2 ⟨hd.symm, fun _ _ => rfl⟩] at hr

theorem CoreInv.waitRelease (h : CoreInv cfg D c) (hd : D t = false)
    (hw : (c.tcb t).tstat.waiting = true) : CoreInv cfg D (c.waitRelease t).1 := by
  refine (h.waitDequeue hd hw).endWait ?_ hd E_RLWAI
  rw [Core.waitDequeueTmevtb_tcb, Core.waitDequeueWobj_tcb]
  exact hw

/-- The wait of a task in a queue ends. -/
theorem CoreInv.endQueueWait (h : CoreInv cfg D c) (ht : t ∈ c.sched.queue (.wait q)) (e : ER) :
    CoreInv cfg D ((((c.queueDelete t).waitDequeueTmevtb t).setWercd t e).makeNonWait t).1 := by
  obtain ⟨hd, hl⟩ := h.of_mem ht
  obtain ⟨_, hw, hq, _⟩ := TCB.loc_eq_wait.1 hl
  have hr := h.waitDequeue hd hw
  rw [Core.waitDequeueWobj_eq hq] at hr
  refine hr.endWait ?_ hd e
  rw [Core.waitDequeueTmevtb_tcb]
  exact hw

theorem CoreInv.waitComplete (h : CoreInv cfg D c) (ht : t ∈ c.sched.queue (.wait q))
    (hw : w.cell = (c.tcb t).winfo.cell) :
    CoreInv cfg D (((c.queueDelete t).setWinfo t w).waitComplete t).1 := by
  obtain ⟨hd, hl⟩ := h.of_mem ht
  obtain ⟨_, hwait, hq, _⟩ := TCB.loc_eq_wait.1 hl
  have hr := h.waitDequeue hd hwait
  rw [Core.waitDequeueWobj_eq hq] at hr
  unfold Core.waitComplete
  rw [Core.waitDequeueTmevtb_setWinfo (c := c.queueDelete t) hw]
  refine (hr.setWinfo (Function.update_self ..) w).endWait ?_ hd E_OK
  rw [Core.setWinfo_tcb, Core.waitDequeueTmevtb_tcb]
  exact hwait

/-- The wait of a task that is in no queue ends. -/
theorem CoreInv.wakeup (h : CoreInv cfg D c) (hd : D t = false)
    (hw : (c.tcb t).tstat.waiting = true) (hq : (c.tcb t).tstat.waitWobj = false) :
    CoreInv cfg D (c.waitComplete t).1 := by
  have hr := h.waitDequeue hd hw
  rw [show c.waitDequeueWobj t = c from if_neg (Bool.eq_false_iff.1 hq)] at hr
  refine hr.endWait ?_ hd E_OK
  rw [Core.waitDequeueTmevtb_tcb]
  exact hw

theorem CoreInv.initWaitQueueLoop (h : CoreInv cfg D c) (n : Nat) (q : WQueue) :
    CoreInv cfg D (Core.initWaitQueueLoop n c q).1 := by
  induction n generalizing c with
  | zero => exact h
  | succ n ih =>
    unfold Core.initWaitQueueLoop
    split
    · exact h
    · rename_i t ht
      exact ih (h.endQueueWait (mem_of_headTsk ht) E_DLT)

theorem CoreInv.initWaitQueue (h : CoreInv cfg D c) (q : WQueue) :
    CoreInv cfg D (c.initWaitQueue q).1 := h.initWaitQueueLoop _ q

theorem CoreInv.request (h : CoreInv cfg D c) (b : Bool) : CoreInv cfg D (c.request b) := h.flags

/-- The time event of a waiting task has been taken from the heap. -/
theorem CoreInv.expire (h : CoreInv cfg D c) (hd : D t = false)
    (hw : (c.tcb t).tstat.waiting = true)
    (htm : TimerInv (Function.update (c.expects D) (.tsk t) false) c.callbackOf tm) :
    CoreInv cfg (Function.update D t true)
      (Core.waitDequeueWobj { c with tm := tm, cpulock := b } t) := by
  have hr := h.detach (h.notFree (not_dormant_of_waiting hw)) (h.sched_waitDequeueWobj hd hw) htm
  have he : Core.waitDequeueWobj { c with tm := tm, cpulock := b } t =
      { c with sched := (c.waitDequeueWobj t).sched, tm := tm, cpulock := b } := by
    unfold Core.waitDequeueWobj
    split <;> rfl
  rw [he]
  exact hr.flags

theorem CoreInv.waitTmout (h : CoreInv cfg D c) (hd : D t = false)
    (hw : (c.tcb t).tstat.waiting = true)
    (htm : TimerInv (Function.update (c.expects D) (.tsk t) false) c.callbackOf tm) :
    CoreInv cfg D (Core.waitTmout { c with tm := tm, cpulock := b } t) := by
  refine ((h.expire hd hw htm).endWait ?_ hd E_TMOUT).request _
  rw [Core.waitDequeueWobj_tcb]
  exact hw

theorem CoreInv.waitTmoutOk (h : CoreInv cfg D c) (hd : D t = false)
    (hw : (c.tcb t).tstat.waiting = true) (hq : (c.tcb t).tstat.waitWobj = false)
    (htm : TimerInv (Function.update (c.expects D) (.tsk t) false) c.callbackOf tm) :
    CoreInv cfg D (Core.waitTmoutOk { c with tm := tm, cpulock := b } t) := by
  have hr := h.expire (b := b) hd hw htm
  rw [Core.waitDequeueWobj, if_neg (Bool.eq_false_iff.1 hq)] at hr
  exact (hr.endWait hw hd E_OK).request _

end

/-- The waiting information at the start of a wait. -/
def WInfo.start (w : WInfo) (t : Nat) (ev : Option (TMO × CBack)) (q : Option (WQueue × Bool)) :
    WInfo :=
  { w with
    cell := .pTmevtb (ev.map fun _ => .tsk t)
    tmo := ev.map Prod.fst
    wobjcb := match q with | none => w.wobjcb | some q => q.1.2 }

namespace Core

/-- The start of every wait: the task leaves its ready queue, is registered with a time event
where there is one and enters a wait queue where there is one. -/
def block (c : Core) (t : Nat) (f : WaitFactor) (w : WInfo) (ev : Option (TMO × CBack))
    (q : Option (WQueue × Bool)) : Core :=
  let s := (c.makeNonRunnable t).1.sched
  { c.setTcb t { c.tcb t with tstat := .WAITING f, winfo := w.start t ev q } with
    tm := match ev with | none => c.tm | some ev => c.tm.tmevtbEnqueue (.tsk t) ev.1 ev.2
    sched := match q with | none => s | some q => s.enterWait c.priority q.1 q.2 t }

end Core

/-- The time event of a wait. -/
def WaitMode.event : WaitMode → Option (TMO × CBack)
  | .tmo tmout => if 0 < tmout.toInt then some (tmout, .waitTmout) else none
  | _ => none

theorem tmo_fevr {tmout : TMO} (hv : validTmout tmout = true) (hp : (tmout == TMO_POL) = false)
    (h : ¬0 < tmout.toInt) : tmout = TMO_FEVR := by
  have hge : TMO_FEVR.toInt ≤ tmout.toInt := of_decide_eq_true hv
  have hne : tmout.toInt ≠ 0 := fun he => by
    have hz : tmout = TMO_POL := BitVec.eq_of_toInt_eq he
    rw [hz, beq_self_eq_true] at hp
    cases hp
  have hm : TMO_FEVR.toInt = -1 := by decide
  exact BitVec.eq_of_toInt_eq (by omega)

namespace Core

theorem runtsk_setWaiting (c : Core) (f : WaitFactor) : (c.setWaiting f).runtsk = c.runtsk := rfl

theorem priority_setTcb_eq {c : Core} {p : TCB} (hp : p.priority = (c.tcb t).priority) :
    (c.setTcb t p).priority = c.priority := by
  rw [priority_setTcb, hp]
  exact Function.update_eq_self ..

theorem makeNonRunnable_setTcb {c : Core} {p : TCB} (u : Nat)
    (hp : p.priority = (c.tcb t).priority) : ((c.setTcb t p).makeNonRunnable u) =
      ((c.makeNonRunnable u).1.setTcb t p, (c.makeNonRunnable u).2) := by
  unfold makeNonRunnable
  rw [priority_setTcb_eq hp]
  rfl

theorem makeNonRunnable_setWaiting (c : Core) (f : WaitFactor) (u : Nat) :
    (c.setWaiting f).makeNonRunnable u =
      ((c.makeNonRunnable u).1.setWaiting f, (c.makeNonRunnable u).2) :=
  makeNonRunnable_setTcb (p := { c.tcb c.runtsk with tstat := .WAITING f }) u rfl

theorem setWaiting_setWinfo (c : Core) (f : WaitFactor) (w : WInfo) :
    (c.setWaiting f).setWinfo c.runtsk w =
      c.setTcb c.runtsk { c.tcb c.runtsk with tstat := .WAITING f, winfo := w } := by
  unfold setWinfo setWaiting
  rw [setTcb_setTcb, setTcb_self]

theorem makeWait_block (c : Core) (f : WaitFactor) (w : WInfo) :
    (c.setWaiting f).makeWait w = c.block c.runtsk f w none none := by
  unfold makeWait
  rw [makeNonRunnable_setWaiting, runtsk_setWaiting]
  exact setWaiting_setWinfo (c.makeNonRunnable c.runtsk).1 f _

theorem makeWaitTmevtb_block (c : Core) (f : WaitFactor) (w : WInfo) (tmout : TMO) (cb : CBack) :
    (c.setWaiting f).makeWaitTmevtb w tmout cb = c.block c.runtsk f w (some (tmout, cb)) none := by
  unfold makeWaitTmevtb
  simp only
  rw [makeNonRunnable_setWaiting, runtsk_setWaiting]
  have h := setWaiting_setWinfo (c.makeNonRunnable c.runtsk).1 f
    { w with cell := .pTmevtb (some (.tsk c.runtsk)), tmo := some tmout }
  exact congrArg (fun c' : Core =>
    { c' with tm := c'.tm.tmevtbEnqueue (.tsk c.runtsk) tmout cb }) h

theorem block_assert (c : Core) (t : Nat) (f : WaitFactor) (w : WInfo) (ev : Option (TMO × CBack))
    (q : Option (WQueue × Bool)) :
    { c.block t f w ev q with assertOk := (c.block t f w ev q).assertOk && true } =
      c.block t f w ev q := by
  rw [Bool.and_true]

/-- The forms of a wait without a wait queue. -/
theorem makeWaitTmout_block {tmout : TMO} (hv : validTmout tmout = true)
    (hp : (tmout == TMO_POL) = false) (c : Core) (f : WaitFactor) (w : WInfo) :
    (c.setWaiting f).makeWaitTmout w tmout =
      c.block c.runtsk f w (WaitMode.tmo tmout).event none := by
  unfold makeWaitTmout
  simp only [WaitMode.event]
  split
  · exact makeWaitTmevtb_block ..
  · rename_i h
    rw [tmo_fevr hv hp h, makeWait_block]
    exact block_assert ..

theorem block_priority (c : Core) (t : Nat) (f : WaitFactor) (w : WInfo)
    (ev : Option (TMO × CBack)) (q : Option (WQueue × Bool)) :
    (c.block t f w ev q).priority = c.priority := by
  change (c.setTcb t { c.tcb t with tstat := .WAITING f, winfo := w.start t ev q }).priority = _
  exact priority_setTcb_eq rfl

/-- Then the task enters a wait queue. -/
theorem block_enter (c : Core) (f : WaitFactor) (w : WInfo) (ev : Option (TMO × CBack))
    (q : WQueue) (tp : Bool) :
    ((c.block c.runtsk f w ev none).queueInsertRuntsk q tp).setWobjcb c.runtsk q.2 =
      c.block c.runtsk f w ev (some (q, tp)) := by
  unfold setWobjcb queueInsertRuntsk
  rw [block_priority]
  unfold setWinfo block
  simp only [setTcb, Function.update_idem, Function.update_self]
  rfl

end Core

/-- What a wait is started with. -/
structure BlockOk (c : Core) (f : WaitFactor) (ev : Option (TMO × CBack))
    (q : Option (WQueue × Bool)) : Prop where
  queue : ∀ r ∈ q, r.1.1 = f ∧ r.2 = c.tpri r.1 ∧ c.wobjatr r.1.main ≠ TA_NOEXS
  wobj : (TStat.WAITING f).waitWobj = q.isSome
  delay : f = .DLY → ev.isSome = true
  callback : ∀ e ∈ ev, e.2 = if f = .DLY then .waitTmoutOk else .waitTmout
  time : ∀ e ∈ ev, e.1 ≤ TMAX_RELTIM

section
variable {cfg : Cfg} {D : Nat → Bool} {c : Core} {f : WaitFactor} {ev : Option (TMO × CBack)}
  {q : Option (WQueue × Bool)}

theorem block_loc {p : TCB} {w : WInfo} (hq : (TStat.WAITING f).waitWobj = q.isSome)
    (hf : ∀ r ∈ q, r.1.1 = f) (ev : Option (TMO × CBack)) :
    TCB.loc { p with tstat := .WAITING f, winfo := w.start t ev q } =
      q.map fun r => .wait r.1 := by
  cases q with
  | none =>
    unfold TCB.loc
    simp only [TStat.WAITING, Bool.false_eq_true, if_false]
    exact if_neg fun h => Bool.false_ne_true (hq.symm.trans h.2)
  | some r => exact TCB.loc_eq_wait.2 ⟨rfl, rfl, hq, (hf r rfl).symm, rfl⟩

theorem CoreInv.block (h : CoreInv cfg D c) (hd : D t = false)
    (hr : (c.tcb t).tstat.runnable = true) (hb : BlockOk c f ev q) (w : WInfo) :
    CoreInv cfg D (c.block t f w ev q) := by
  have ht := h.task t
  have hne : (c.tcb t).tstat ≠ .DORMANT := fun he => by
    rw [he] at hr
    cases hr
  have hself : Function.update D t true t = true := Function.update_self ..
  have hl := block_loc (p := c.tcb t) (w := w) (t := t) hb.wobj
    (fun r hr => (hb.queue r hr).1) ev
  let p : TCB := { c.tcb t with tstat := .WAITING f, winfo := w.start t ev q }
  have hp : TaskInv cfg false t p := by
    refine ⟨.blocked f, ht.priority, ht.bpriority, ht.ipriority, fun _ _ => ?_, fun _ _ hf => ?_,
      fun _ => ht.range hne⟩
    · change WCell.pTmevtb (ev.map fun _ => .tsk t) = .pTmevtb ((ev.map Prod.fst).map _)
      rw [Option.map_map]
      rfl
    · change (ev.map Prod.fst).isSome = true
      rw [Option.isSome_map]
      exact hb.delay hf
  have h1 := (h.makeNonRunnable hd hr).setTcb_detached (p := p) hself hp.detached
  have hpc : ((c.makeNonRunnable t).1.setTcb t p).tcb t = p := Core.setTcb_self ..
  have h2 := h1.attach (t := t) (D := Function.update D t true)
    (s := (c.block t f w ev q).sched) (m := (c.block t f w ev q).tm) hself
    (by rwa [hpc]) ?_ ?_ ?_
  · rwa [Function.update_idem, Function.update_eq_iff.2 ⟨hd.symm, fun _ _ => rfl⟩] at h2
  · rw [hpc, hl]
    have hloc := Core.loc_detached (c := (c.makeNonRunnable t).1.setTcb t p) hself
    have hpri : ((c.makeNonRunnable t).1.setTcb t p).priority = c.priority :=
      Core.priority_setTcb_eq (c := (c.makeNonRunnable t).1) rfl
    cases q with
    | none =>
      rw [Option.map_none, ← hloc, Function.update_eq_self]
      exact h1.sched
    | some r =>
      have hs := h1.sched.enterWait hloc r.1
      rw [hpri] at hs ⊢
      have htp := (hb.queue r rfl).2.1
      unfold Core.block
      simp only [htp]
      exact hs
  · rw [hpc]
    have hexp : ((c.makeNonRunnable t).1.setTcb t p).expects (Function.update D t true) (.tsk t) =
        false := by
      simp only [Core.expects, hself, Bool.not_true, Bool.false_and]
    cases ev with
    | none => exact h1.timer.same hexp
    | some e =>
      refine (h1.timer.register hexp (c.tm.baseTime + e.1) e.2 (some e.1)).congr fun e' _ => ?_
      by_cases he : e' = .tsk t
      · subst he
        rw [Function.update_self, hb.callback e rfl]
        simp only [Core.callbackOf, hpc]
        rfl
      · rw [Function.update_of_ne he]
  · rw [hpc, hl]
    rintro q' hq
    obtain ⟨r, hr, he⟩ := Option.map_eq_some_iff.1 hq
    cases he
    exact (hb.queue r hr).2.2

end

end AspKernel
