import AspKernel.SchedInv
import AspKernel.TimerInv
import AspKernel.Service

namespace AspKernel
set_option autoImplicit true

/-- The task states that the kernel uses. -/
structure TStat.Legal (s : TStat) : Prop where
  runnable : s.runnable = true → s.waiting = false ∧ s.suspended = false
  factor : s.waiting = false → s.factor = .DLY

/-- The queue that a task is linked into. -/
def TCB.loc (p : TCB) : Option TaskQueue :=
  if p.tstat.runnable then some (.ready p.priority)
  else if p.tstat.waiting ∧ p.tstat.waitWobj then some (.wait (p.tstat.factor, p.winfo.wobjcb))
  else none

/-- The task waits with a time event. -/
def TCB.timed (p : TCB) : Bool := p.tstat.waiting && p.winfo.tmo.isSome

/-- The attribute of an object is kept with this one of its wait queues. -/
def WQueue.main : WQueue → WQueue
  | (.RDTQ, i) => (.SDTQ, i)
  | (.RPDQ, i) => (.SPDQ, i)
  | q => q

/-- The condition of a task control block; `d` says that the task is detached from its queue and
its time event. -/
structure TaskInv (cfg : Cfg) (d : Bool) (t : Nat) (p : TCB) : Prop where
  legal : p.tstat.Legal
  priority : p.priority < TNUM_TPRI
  bpriority : p.bpriority < TNUM_TPRI
  ipriority : p.tinib.ipriority < TNUM_TPRI
  cell : d = false → p.tstat.waiting = true →
    p.winfo.cell = .pTmevtb (p.winfo.tmo.map fun _ => .tsk t)
  delay : d = false → p.tstat.waiting = true → p.tstat.factor = .DLY → p.winfo.tmo.isSome = true
  range : p.tstat ≠ .DORMANT → t < cfg.tsk.tmax

namespace Core

/-- The queues of the tasks, where those of `D` are detached. -/
def loc (c : Core) (D : Nat → Bool) (t : Nat) : Option TaskQueue :=
  if D t then none else (c.tcb t).loc

/-- The wait queue is in the order of priority. -/
def tpri (c : Core) (q : WQueue) : Bool :=
  decide (WaitFactor.SEM.code ≤ q.1.code) && (c.wobjatr q).has TA_TPRI

/-- The time events that have to be registered. -/
def expects (c : Core) (D : Nat → Bool) : TmevtbPtr → Bool
  | .tsk t => !D t && (c.tcb t).timed
  | .cyc i => (c.cyccb i).cycsta
  | .alm i => (c.almcb i).almsta

def callbackOf (c : Core) : TmevtbPtr → CBack
  | .tsk t => if (c.tcb t).tstat.factor = .DLY then .waitTmoutOk else .waitTmout
  | .cyc _ => .callCychdr
  | .alm _ => .callAlmhdr

end Core

/-- The lists of free control blocks, and the numbers of the started handlers. -/
structure FreeInv (cfg : Cfg) (D : Nat → Bool) (c : Core) : Prop where
  tcb_nodup : c.freeTcb.Nodup
  tcb : ∀ t ∈ c.freeTcb, t < cfg.tsk.tmax ∧ D t = false ∧
    (c.tcb t).tinib.tskatr = TA_NOEXS ∧ (c.tcb t).tstat = .DORMANT
  wobj_nodup : ∀ f, (c.freeWobj f).Nodup
  wobj : ∀ f, ∀ i ∈ c.freeWobj f, c.wobjatr (f, i) = TA_NOEXS
  cyc_nodup : c.freeCyccb.Nodup
  cyc : ∀ i ∈ c.freeCyccb, i < cfg.cyc.tmax ∧ (c.cyccb i).cycatr = TA_NOEXS ∧
    (c.cyccb i).cycsta = false
  alm_nodup : c.freeAlmcb.Nodup
  alm : ∀ i ∈ c.freeAlmcb, i < cfg.alm.tmax ∧ (c.almcb i).almatr = TA_NOEXS ∧
    (c.almcb i).almsta = false
  cyc_range : ∀ i, (c.cyccb i).cycsta = true → i < cfg.cyc.tmax
  alm_range : ∀ i, (c.almcb i).almsta = true → i < cfg.alm.tmax

/-- The invariant of the kernel, at a moment when the tasks of `D` are detached. -/
structure CoreInv (cfg : Cfg) (D : Nat → Bool) (c : Core) : Prop where
  sched : SchedInv (c.loc D) c.priority c.tpri c.sched
  timer : TimerInv (c.expects D) c.callbackOf c.tm
  task : ∀ t, TaskInv cfg (D t) t (c.tcb t)
  free : FreeInv cfg D c
  exist : ∀ t q, c.loc D t = some (.wait q) → c.wobjatr q.main ≠ TA_NOEXS
  asserts : c.assertOk = true

namespace Core

@[simp] theorem setTcb_self (c : Core) (t : Nat) (p : TCB) : (c.setTcb t p).tcb t = p :=
  Function.update_self ..

theorem setTcb_of_ne (c : Core) (p : TCB) (hu : u ≠ t) : (c.setTcb t p).tcb u = c.tcb u :=
  Function.update_of_ne hu ..

@[simp] theorem setTcb_setTcb (c : Core) (t : Nat) (p p' : TCB) :
    (c.setTcb t p).setTcb t p' = c.setTcb t p' := by
  simp only [setTcb, Function.update_idem]

@[simp] theorem setTcb_eq_self (c : Core) (t : Nat) : c.setTcb t (c.tcb t) = c := by
  simp only [setTcb, Function.update_eq_self]

theorem priority_setTcb (c : Core) (t : Nat) (p : TCB) :
    (c.setTcb t p).priority = Function.update c.priority t p.priority := by
  funext u
  by_cases hu : u = t
  · subst hu
    rw [Function.update_self, Core.priority, setTcb_self]
  · rw [Function.update_of_ne hu, Core.priority, setTcb_of_ne c p hu]
    rfl

theorem loc_detached {c : Core} (hd : D t = true) : c.loc D t = none := if_pos hd

theorem loc_attached {c : Core} (hd : D t = false) : c.loc D t = (c.tcb t).loc := by
  unfold loc
  rw [hd, if_neg Bool.false_ne_true]

theorem loc_setTcb (c : Core) (D : Nat → Bool) (t : Nat) (p : TCB) :
    (c.setTcb t p).loc D = Function.update (c.loc D) t (if D t then none else p.loc) := by
  funext u
  by_cases hu : u = t
  · subst hu
    rw [Function.update_self, loc, setTcb_self]
  · rw [Function.update_of_ne hu, loc, setTcb_of_ne c p hu]
    rfl

theorem expects_setTcb (c : Core) (D : Nat → Bool) (t : Nat) (p : TCB) :
    (c.setTcb t p).expects D = Function.update (c.expects D) (.tsk t) (!D t && p.timed) := by
  funext e
  by_cases he : e = .tsk t
  · subst he
    rw [Function.update_self]
    simp only [expects, setTcb_self]
  · rw [Function.update_of_ne he]
    cases e with
    | tsk u =>
      have hu : u ≠ t := fun h => he (congrArg _ h)
      simp only [expects, setTcb_of_ne c p hu]
    | cyc i => rfl
    | alm i => rfl

theorem loc_detach (c : Core) (D : Nat → Bool) (t : Nat) :
    c.loc (Function.update D t true) = Function.update (c.loc D) t none := by
  funext u
  by_cases hu : u = t
  · subst hu
    simp only [loc, Function.update_self, if_pos]
  · simp only [loc, Function.update_of_ne hu]

theorem loc_attach (c : Core) (D : Nat → Bool) (t : Nat) :
    c.loc (Function.update D t false) = Function.update (c.loc D) t (c.tcb t).loc := by
  funext u
  by_cases hu : u = t
  · subst hu
    simp only [loc, Function.update_self, Bool.false_eq_true, if_false]
  · simp only [loc, Function.update_of_ne hu]

theorem expects_update (c : Core) (D : Nat → Bool) (t : Nat) (d : Bool) :
    c.expects (Function.update D t d) =
      Function.update (c.expects D) (.tsk t) (!d && (c.tcb t).timed) := by
  funext e
  by_cases he : e = .tsk t
  · subst he
    simp only [expects, Function.update_self]
  · rw [Function.update_of_ne he]
    cases e with
    | tsk u =>
      have hu : u ≠ t := fun h => he (congrArg _ h)
      simp only [expects, Function.update_of_ne hu]
    | cyc i => rfl
    | alm i => rfl

end Core

section
variable {cfg : Cfg} {D : Nat → Bool} {c : Core}

theorem CoreInv.notFree (h : CoreInv cfg D c) (ht : (c.tcb t).tstat ≠ .DORMANT) :
    t ∉ c.freeTcb := fun hm => ht (h.free.tcb t hm).2.2.2

theorem CoreInv.notFree_detached (h : CoreInv cfg D c) (hd : D t = true) : t ∉ c.freeTcb :=
  fun hm => absurd hd (Bool.eq_false_iff.1 (h.free.tcb t hm).2.1)

theorem FreeInv.setTcb (h : FreeInv cfg D c)
    (hf : t ∈ c.freeTcb → p.tinib.tskatr = TA_NOEXS ∧ p.tstat = .DORMANT) :
    FreeInv cfg D (c.setTcb t p) where
  tcb_nodup := h.tcb_nodup
  tcb u hu := by
    obtain ⟨h1, h2, h3⟩ := h.tcb u hu
    refine ⟨h1, h2, ?_⟩
    by_cases hut : u = t
    · subst hut
      rw [Core.setTcb_self]
      exact hf hu
    · rwa [Core.setTcb_of_ne c p hut]
  wobj_nodup := h.wobj_nodup
  wobj := h.wobj
  cyc_nodup := h.cyc_nodup
  cyc := h.cyc
  alm_nodup := h.alm_nodup
  alm := h.alm
  cyc_range := h.cyc_range
  alm_range := h.alm_range

/-- A change of a control block together with its place in the queues. -/
theorem CoreInv.setTcbSched (h : CoreInv cfg D c) (hp : TaskInv cfg (D t) t p)
    (hs : SchedInv ((c.setTcb t p).loc D) (c.setTcb t p).priority c.tpri s)
    (htimed : D t = false → p.timed = (c.tcb t).timed)
    (hdly : D t = false → p.timed = true → p.tstat.factor = (c.tcb t).tstat.factor)
    (hfree : t ∈ c.freeTcb → p.tinib.tskatr = TA_NOEXS ∧ p.tstat = .DORMANT)
    (hex : ∀ q, (c.setTcb t p).loc D t = some (.wait q) → c.loc D t = some (.wait q)) :
    CoreInv cfg D { c.setTcb t p with sched := s } := by
  have he : (c.setTcb t p).expects D = c.expects D := by
    rw [Core.expects_setTcb, Function.update_eq_iff]
    refine ⟨?_, fun _ _ => rfl⟩
    cases hd : D t with
    | true => simp only [Core.expects, hd, Bool.not_true, Bool.false_and]
    | false => simp only [Core.expects, hd, Bool.not_false, Bool.true_and, htimed hd]
  have hf := h.free.setTcb hfree
  refine ⟨hs, ?_, fun u => ?_,
    ⟨hf.1, hf.2, hf.3, hf.4, hf.5, hf.6, hf.7, hf.8, hf.9, hf.10⟩, fun u q hu => ?_, h.asserts⟩
  · change TimerInv ((c.setTcb t p).expects D) (c.setTcb t p).callbackOf c.tm
    rw [he]
    refine h.timer.congr fun e hexp => ?_
    cases e with
    | tsk u =>
      by_cases hut : u = t
      · subst hut
        rw [← he] at hexp
        simp only [Core.expects, Core.setTcb_self, Bool.and_eq_true, Bool.not_eq_true'] at hexp
        simp only [Core.callbackOf, Core.setTcb_self, hdly hexp.1 hexp.2]
      · simp only [Core.callbackOf, Core.setTcb_of_ne c p hut]
    | cyc i => rfl
    | alm i => rfl
  · change TaskInv cfg (D u) u ((c.setTcb t p).tcb u)
    by_cases hut : u = t
    · subst hut
      rw [Core.setTcb_self]
      exact hp
    · rw [Core.setTcb_of_ne c p hut]
      exact h.task u
  · change (c.setTcb t p).loc D u = _ at hu
    by_cases hut : u = t
    · subst hut
      exact h.exist u q (hex q hu)
    · rw [Core.loc_setTcb, Function.update_of_ne hut] at hu
      exact h.exist u q hu

/-- A change of a control block that leaves the task in its queues. -/
theorem CoreInv.setTcb (h : CoreInv cfg D c) (hp : TaskInv cfg (D t) t p)
    (hloc : D t = false → p.loc = (c.tcb t).loc)
    (hpri : ∀ o, c.loc D t = some o → (∀ q, o = .wait q → c.tpri q = true) →
      p.priority = c.priority t)
    (htimed : D t = false → p.timed = (c.tcb t).timed)
    (hdly : D t = false → p.timed = true → p.tstat.factor = (c.tcb t).tstat.factor)
    (hfree : t ∈ c.freeTcb → p.tinib.tskatr = TA_NOEXS ∧ p.tstat = .DORMANT) :
    CoreInv cfg D (c.setTcb t p) := by
  have hl : (c.setTcb t p).loc D = c.loc D := by
    rw [Core.loc_setTcb, Function.update_eq_iff]
    refine ⟨?_, fun _ _ => rfl⟩
    unfold Core.loc
    split
    · rfl
    · rename_i hd
      exact hloc (Bool.eq_false_iff.2 hd)
  refine h.setTcbSched (s := c.sched) hp ?_ htimed hdly hfree fun q hq => hl ▸ hq
  rw [hl, Core.priority_setTcb]
  have hkeep (u : Nat) (o : TaskQueue) (hu : c.loc D u = some o)
      (ho : ∀ q, o = .wait q → c.tpri q = true) :
      Function.update c.priority t p.priority u = c.priority u := by
    by_cases hut : u = t
    · subst hut
      rw [Function.update_self]
      exact hpri o hu ho
    · rw [Function.update_of_ne hut]
  refine h.sched.pri_congr (fun u q hu => hkeep u _ hu nofun) fun u q hu hq => ?_
  refine hkeep u _ hu ?_
  rintro q' ⟨⟩
  exact hq

/-- The control block of a detached task may change as it likes. -/
theorem CoreInv.setTcb_detached (h : CoreInv cfg D c) (hd : D t = true)
    (hp : TaskInv cfg true t p) : CoreInv cfg D (c.setTcb t p) := by
  have hn := Core.loc_detached (c := c) hd
  have hc (hd' : D t = false) : False := by
    rw [hd] at hd'
    cases hd'
  refine h.setTcb (by rwa [hd]) (fun hd' => (hc hd').elim) ?_ (fun hd' => (hc hd').elim)
    (fun hd' => (hc hd').elim) fun hm => ?_
  · intro o ho
    rw [hn] at ho
    cases ho
  · exact (hc (h.free.tcb t hm).2.1).elim

/-- The fields that matter are the state, the priority and the waiting information. -/
theorem CoreInv.setTcb_frame (h : CoreInv cfg D c) (hs : p.tstat = (c.tcb t).tstat)
    (hp : p.priority = (c.tcb t).priority) (hw : p.winfo = (c.tcb t).winfo)
    (hi : p.tinib.ipriority = (c.tcb t).tinib.ipriority) (hb : p.bpriority < TNUM_TPRI)
    (hf : p.tinib.tskatr = (c.tcb t).tinib.tskatr ∨ t ∉ c.freeTcb) :
    CoreInv cfg D (c.setTcb t p) := by
  have ht := h.task t
  refine h.setTcb ⟨?_, ?_, hb, ?_, ?_, ?_, ?_⟩ ?_ (fun _ _ _ => hp) ?_ ?_ ?_
  · rw [hs]
    exact ht.legal
  · rw [hp]
    exact ht.priority
  · rw [hi]
    exact ht.ipriority
  · rw [hs, hw]
    exact ht.cell
  · rw [hs, hw]
    exact ht.delay
  · rw [hs]
    exact ht.range
  · intro _
    unfold TCB.loc
    rw [hs, hp, hw]
  · intro _
    unfold TCB.timed
    rw [hs, hw]
  · intro _ _
    rw [hs]
  · intro hm
    obtain ⟨_, _, h3, h4⟩ := h.free.tcb t hm
    rw [hs]
    exact ⟨(hf.resolve_right (not_not_intro hm)).trans h3, h4⟩

theorem TaskInv.detached (h : TaskInv cfg d t p) : TaskInv cfg true t p where
  legal := h.legal
  priority := h.priority
  bpriority := h.bpriority
  ipriority := h.ipriority
  cell := nofun
  delay := nofun
  range := h.range

theorem TaskInv.attached (h : TaskInv cfg d t p) (hw : p.tstat.waiting = false) :
    TaskInv cfg false t p where
  legal := h.legal
  priority := h.priority
  bpriority := h.bpriority
  ipriority := h.ipriority
  cell _ hw' := by
    rw [hw] at hw'
    cases hw'
  delay _ hw' := by
    rw [hw] at hw'
    cases hw'
  range := h.range

theorem FreeInv.update (h : FreeInv cfg D c) (ht : t ∉ c.freeTcb) (d : Bool) :
    FreeInv cfg (Function.update D t d) c where
  tcb_nodup := h.tcb_nodup
  tcb u hu := by
    have hut : u ≠ t := fun he => ht (he ▸ hu)
    rw [Function.update_of_ne hut]
    exact h.tcb u hu
  wobj_nodup := h.wobj_nodup
  wobj := h.wobj
  cyc_nodup := h.cyc_nodup
  cyc := h.cyc
  alm_nodup := h.alm_nodup
  alm := h.alm
  cyc_range := h.cyc_range
  alm_range := h.alm_range

/-- A task is detached from its queue and its time event. -/
theorem CoreInv.detach (h : CoreInv cfg D c) (ht : t ∉ c.freeTcb)
    (hs : SchedInv (Function.update (c.loc D) t none) c.priority c.tpri s)
    (htm : TimerInv (Function.update (c.expects D) (.tsk t) false) c.callbackOf tm) :
    CoreInv cfg (Function.update D t true) { c with sched := s, tm := tm } := by
  have hl := c.loc_detach D t
  have he := c.expects_update D t true
  rw [Bool.not_true, Bool.false_and] at he
  refine ⟨hl ▸ hs, he ▸ htm, fun u => ?_, ?_, fun u q hu => ?_, h.asserts⟩
  · by_cases hut : u = t
    · subst hut
      rw [Function.update_self]
      exact (h.task u).detached
    · rw [Function.update_of_ne hut]
      exact h.task u
  · have hf := h.free.update ht true
    exact ⟨hf.1, hf.2, hf.3, hf.4, hf.5, hf.6, hf.7, hf.8, hf.9, hf.10⟩
  · change c.loc _ u = _ at hu
    rw [hl] at hu
    by_cases hut : u = t
    · subst hut
      rw [Function.update_self] at hu
      cases hu
    · rw [Function.update_of_ne hut] at hu
      exact h.exist u q hu

/-- A detached task comes back, in the queue and with the time event that its state asks for. -/
theorem CoreInv.attach (h : CoreInv cfg D c) (hd : D t = true)
    (hp : TaskInv cfg false t (c.tcb t))
    (hs : SchedInv (Function.update (c.loc D) t (c.tcb t).loc) c.priority c.tpri s)
    (htm : TimerInv (Function.update (c.expects D) (.tsk t) (c.tcb t).timed) c.callbackOf m)
    (hex : ∀ q, (c.tcb t).loc = some (.wait q) → c.wobjatr q.main ≠ TA_NOEXS) :
    CoreInv cfg (Function.update D t false) { c with sched := s, tm := m } := by
  have hl := c.loc_attach D t
  have he := c.expects_update D t false
  rw [Bool.not_false, Bool.true_and] at he
  refine ⟨hl ▸ hs, he ▸ htm, fun u => ?_, ?_, fun u q hu => ?_, h.asserts⟩
  · by_cases hut : u = t
    · subst hut
      rw [Function.update_self]
      exact hp
    · rw [Function.update_of_ne hut]
      exact h.task u
  · have hf := h.free.update (h.notFree_detached hd) false
    exact ⟨hf.1, hf.2, hf.3, hf.4, hf.5, hf.6, hf.7, hf.8, hf.9, hf.10⟩
  · change c.loc _ u = _ at hu
    rw [hl] at hu
    by_cases hut : u = t
    · subst hut
      rw [Function.update_self] at hu
      exact hex q hu
    · rw [Function.update_of_ne hut] at hu
      exact h.exist u q hu

theorem TCB.loc_runnable {p : TCB} (hr : p.tstat.runnable = true) : p.loc = some (.ready p.priority) := by
  unfold TCB.loc
  rw [if_pos hr]

theorem TStat.Legal.not_waiting {s : TStat} (h : s.Legal) (hr : s.runnable = true) :
    s.waiting = false := (h.runnable hr).1

theorem TCB.timed_of_not_waiting {p : TCB} (h : p.tstat.waiting = false) : p.timed = false := by
  unfold TCB.timed
  rw [h, Bool.false_and]

theorem CoreInv.makeNonRunnable (h : CoreInv cfg D c) (hd : D t = false)
    (hr : (c.tcb t).tstat.runnable = true) :
    CoreInv cfg (Function.update D t true) (c.makeNonRunnable t).1 := by
  have hw := (h.task t).legal.not_waiting hr
  have hl := (Core.loc_attached hd).trans (TCB.loc_runnable hr)
  refine h.detach (h.notFree fun he => ?_) (h.sched.makeNonRunnable hl)
    (h.timer.same ?_)
  · rw [he] at hr
    cases hr
  · simp only [Core.expects, TCB.timed_of_not_waiting hw, Bool.and_false]

theorem CoreInv.makeRunnable (h : CoreInv cfg D c) (hd : D t = true)
    (hr : (c.tcb t).tstat.runnable = true) :
    CoreInv cfg (Function.update D t false) (c.makeRunnable t).1 := by
  have hp := h.task t
  have hw := hp.legal.not_waiting hr
  have hl := Core.loc_detached (c := c) hd
  have hq := TCB.loc_runnable hr
  refine h.attach hd ((h.task t).attached hw) ?_ (h.timer.same ?_) ?_
  · rw [hq]
    exact h.sched.makeRunnable hl hp.priority
  · simp only [Core.expects, hd, TCB.timed_of_not_waiting hw, Bool.not_true, Bool.false_and]
  · intro q he
    rw [hq] at he
    cases he

/-- A task that is neither runnable nor waiting is in no queue. -/
theorem TCB.loc_idle {p : TCB} (hr : p.tstat.runnable = false) (hw : p.tstat.waiting = false) :
    p.loc = none := by
  unfold TCB.loc
  simp only [hr, hw, Bool.false_eq_true, if_false, false_and]

theorem CoreInv.detachIdle (h : CoreInv cfg D c) (ht : t ∉ c.freeTcb)
    (hr : (c.tcb t).tstat.runnable = false) (hw : (c.tcb t).tstat.waiting = false) :
    CoreInv cfg (Function.update D t true) c := by
  have hl : c.loc D t = none := by
    unfold Core.loc
    rw [TCB.loc_idle hr hw, ite_self]
  refine h.detach ht ?_ (h.timer.same ?_)
  · rw [← hl, Function.update_eq_self]
    exact h.sched
  · simp only [Core.expects, TCB.timed_of_not_waiting hw, Bool.and_false]

theorem CoreInv.attachIdle (h : CoreInv cfg D c) (hd : D t = true)
    (hr : (c.tcb t).tstat.runnable = false) (hw : (c.tcb t).tstat.waiting = false) :
    CoreInv cfg (Function.update D t false) c := by
  have hl := Core.loc_detached (c := c) hd
  have hq := TCB.loc_idle hr hw
  refine h.attach hd ((h.task t).attached hw) ?_ (h.timer.same ?_) ?_
  · rw [hq, ← hl, Function.update_eq_self]
    exact h.sched
  · simp only [Core.expects, TCB.timed_of_not_waiting hw, Bool.and_false]
  · intro q he
    rw [hq] at he
    cases he

end

end AspKernel
