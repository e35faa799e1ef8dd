import AspKernel.WaitInv
import AspKernel.TaskManage

namespace AspKernel
set_option autoImplicit true

section
variable {cfg : Cfg} {D : Nat → Bool} {c : Core}

/-- A detached task that has come back leaves the set as it was. -/
theorem update_attached (hd : D t = false) :
    Function.update (Function.update D t true) t false = D := by
  rw [Function.update_idem, Function.update_eq_iff]
  exact ⟨hd.symm, fun _ _ => rfl⟩

theorem CoreInv.makeActive (h : CoreInv cfg D c) (hd : D t = true) (hr : t < cfg.tsk.tmax) : CoreInv cfg (Function.update D t false) (c.makeActive t).1 := by
  have ht := h.task t
  have hp : TaskInv cfg true t { c.tcb t with tstat := .RUNNABLE, texstk := [], texloop := false } :=
    ⟨.running, ht.priority, ht.bpriority, ht.ipriority, nofun, nofun, fun _ => hr⟩
  refine (h.setTcb_detached hd hp).makeRunnable hd ?_
  rw [Core.setTcb_self]
  rfl

theorem isDormant_iff {s : TStat} : s.isDormant = true ↔ s = .DORMANT := beq_iff_eq

/-- A dormant task is activated. -/
theorem CoreInv.activate (h : CoreInv cfg D c) (hd : D t = false) (hf : t ∉ c.freeTcb)
    (hr : t < cfg.tsk.tmax) (hs : (c.tcb t).tstat = .DORMANT) :
    CoreInv cfg D (c.makeActive t).1 := by
  have h1 := h.detachIdle (t := t) hf (by rw [hs]; rfl) (by rw [hs]; rfl)
  have h2 := h1.makeActive (Function.update_self ..) hr
  rwa [update_attached hd] at h2

theorem CoreInv.suspend (h : CoreInv cfg D c) (hd : D t = false)
    (hr : (c.tcb t).tstat.runnable = true) :
    CoreInv cfg D ((c.setTcb t { c.tcb t with tstat := .SUSPENDED }).makeNonRunnable t).1 := by
  have ht := h.task t
  have hne : (c.tcb t).tstat ≠ .DORMANT := fun he => by
    rw [he] at hr
    cases hr
  have hself : Function.update D t true t = true := Function.update_self ..
  rw [Core.makeNonRunnable_setTcb (p := { c.tcb t with tstat := .SUSPENDED }) t rfl]
  have h1 := (h.makeNonRunnable hd hr).setTcb_detached hself
    (ht.setTstat .suspended fun _ => ht.range hne)
  have h2 := h1.attachIdle hself (by rw [Core.setTcb_self]; rfl)
    (by rw [Core.setTcb_self]; rfl)
  rwa [update_attached hd] at h2

/-- A waiting task is suspended or resumed. -/
theorem CoreInv.setSuspended (h : CoreInv cfg D c) (hw : (c.tcb t).tstat.waiting = true)
    (b : Bool) : CoreInv cfg D
      (c.setTcb t { c.tcb t with tstat := { (c.tcb t).tstat with suspended := b } }) := by
  have ht := h.task t
  have hr := ht.legal.not_runnable hw
  have hne := not_dormant_of_waiting hw
  refine h.setTcb ⟨⟨fun hr' => ?_, ht.legal.factor⟩, ht.priority, ht.bpriority, ht.ipriority,
    ht.cell, ht.delay, fun _ => ht.range hne⟩ (fun _ => rfl) (fun _ _ _ => rfl) (fun _ => rfl)
    (fun _ _ => rfl) fun hm => absurd hm (h.notFree hne)
  rw [show _ = (c.tcb t).tstat.runnable from rfl, hr] at hr'
  cases hr'

theorem TStat.Legal.suspended_eq {s : TStat} (h : s.Legal) (hs : s.suspended = true)
    (hw : s.waiting = false) : s = .SUSPENDED := by
  have hr : s.runnable = false := by
    by_contra hr
    rw [(h.runnable (Bool.not_eq_false _ ▸ hr)).2] at hs
    cases hs
  obtain ⟨r, w, su, f⟩ := s
  cases hs
  cases hw
  cases hr
  cases h.factor rfl
  rfl

theorem CoreInv.resume (h : CoreInv cfg D c) (hd : D t = false)
    (hs : (c.tcb t).tstat = .SUSPENDED) :
    CoreInv cfg D ((c.setTcb t { c.tcb t with tstat := .RUNNABLE }).makeRunnable t).1 := by
  have ht := h.task t
  have hne : (c.tcb t).tstat ≠ .DORMANT := by
    rw [hs]
    decide
  have hself : Function.update D t true t = true := Function.update_self ..
  have hf := h.notFree hne
  have h1 := h.detachIdle hf (by rw [hs]; rfl) (by rw [hs]; rfl)
  have h2 := (h1.setTcb_detached hself (ht.setTstat .running fun _ => ht.range hne)).makeRunnable
    hself (by rw [Core.setTcb_self]; rfl)
  rwa [update_attached hd] at h2

theorem CoreInv.rotateReadyQueue (h : CoreInv cfg D c) (pri : Nat) :
    CoreInv cfg D (c.rotateReadyQueue pri).1 where
  sched := h.sched.rotateReadyQueue pri
  timer := h.timer
  task := h.task
  free := ⟨h.free.1, h.free.2, h.free.3, h.free.4, h.free.5, h.free.6, h.free.7, h.free.8,
    h.free.9, h.free.10⟩
  exist := h.exist
  asserts := h.asserts

theorem wait_code {s : TStat} (hq : s.waitWobjcb = true) : s.waitWobj = true := by
  unfold TStat.waitWobjcb at hq
  unfold TStat.waitWobj
  have h1 : WaitFactor.SEM.code ≤ s.factor.code := of_decide_eq_true hq
  have h2 : WaitFactor.RDTQ.code ≤ WaitFactor.SEM.code := by decide
  exact decide_eq_true (h2.trans h1)

theorem TStat.Legal.waiting_of_wobj {s : TStat} (h : s.Legal) (hq : s.waitWobj = true) :
    s.waiting = true := by
  by_contra hw
  unfold TStat.waitWobj at hq
  rw [h.factor (Bool.eq_false_iff.2 hw)] at hq
  exact absurd hq (by decide)

/-- The wait queue of an object with a common part is in the order of its attribute. -/
theorem Core.tpri_waitQueue {c : Core} (hq : (c.tcb t).tstat.waitWobjcb = true) :
    c.tpri (c.waitQueue t) = (c.wobjatr (c.waitQueue t)).has TA_TPRI := by
  have h1 : decide (WaitFactor.SEM.code ≤ (c.waitQueue t).1.code) = true := hq
  unfold Core.tpri
  rw [h1, Bool.true_and]

theorem Core.waitQueue_setPriority (c : Core) (t new : Nat) :
    (c.setTcb t { c.tcb t with priority := new }).waitQueue t = c.waitQueue t := by
  unfold Core.waitQueue
  rw [Core.setTcb_self]

/-- A new priority, for a task in any state. -/
theorem CoreInv.changePriority (h : CoreInv cfg D c) (hd : D t = false)
    (hn : new < TNUM_TPRI) (m : Bool) :
    CoreInv cfg D (c.changePriority t new m).1 := by
  have ht := h.task t
  have hp : TaskInv cfg (D t) t { c.tcb t with priority := new } :=
    ⟨ht.legal, hn, ht.bpriority, ht.ipriority, ht.cell, ht.delay, ht.range⟩
  have hf (hm : t ∈ c.freeTcb) : (c.tcb t).tinib.tskatr = TA_NOEXS ∧ (c.tcb t).tstat = .DORMANT :=
    (h.free.tcb t hm).2.2
  have hpri := Core.priority_setTcb c t { c.tcb t with priority := new }
  have hl := Core.loc_setTcb c D t { c.tcb t with priority := new }
  have hloc := Core.loc_attached (c := c) hd
  rw [hd, if_neg Bool.false_ne_true] at hl
  unfold Core.changePriority
  simp only [Core.setTcb_self]
  split
  · rename_i hr
    have hcur := hloc.trans (TCB.loc_runnable hr)
    refine h.setTcbSched hp ?_ (fun _ => rfl) (fun _ _ => rfl) hf ?_
    · rw [hl, hpri, TCB.loc_runnable (p := { c.tcb t with priority := new }) hr]
      exact h.sched.changePriority hcur hn
    · intro q hq
      rw [hl, Function.update_self, TCB.loc_runnable (p := { c.tcb t with priority := new }) hr] at hq
      cases hq
  · rename_i hr
    have hr := Bool.eq_false_iff.2 hr
    have hsame : TCB.loc { c.tcb t with priority := new } = (c.tcb t).loc := by
      unfold TCB.loc
      simp only [hr, Bool.false_eq_true, if_false]
    have hkeep (hno : ∀ q, c.loc D t = some (.wait q) → c.tpri q = false) :
        CoreInv cfg D (c.setTcb t { c.tcb t with priority := new }) := by
      refine h.setTcb hp (fun _ => hsame) (fun o ho htp => ?_) (fun _ => rfl) (fun _ _ => rfl) hf
      cases o with
      | ready p =>
        rw [hloc] at ho
        unfold TCB.loc at ho
        rw [hr, if_neg Bool.false_ne_true] at ho
        split at ho <;> cases ho
      | wait q =>
        have h1 := htp q rfl
        rw [hno q ho] at h1
        cases h1
    split
    · rename_i hq
      have hw := ht.legal.waiting_of_wobj (wait_code hq)
      have hcur : c.loc D t = some (.wait (c.waitQueue t)) :=
        hloc.trans (TCB.loc_eq_wait.2 ⟨hr, hw, wait_code hq, rfl, rfl⟩)
      have htp := Core.tpri_waitQueue hq
      unfold Core.wobjChangePriority
      rw [Core.waitQueue_setPriority]
      split
      · rename_i hatr
        refine h.setTcbSched hp ?_ (fun _ => rfl) (fun _ _ => rfl) hf fun q hq => ?_
        · rw [hl, hsame, ← hloc, Function.update_eq_self, hpri]
          exact h.sched.wobjChangePriority hcur (htp.trans hatr)
        · rwa [hl, hsame, ← hloc, Function.update_eq_self] at hq
      · rename_i hatr
        refine hkeep fun q hq' => ?_
        rw [hcur] at hq'
        cases hq'
        exact htp.trans (Bool.eq_false_iff.2 hatr)
    · rename_i hq
      refine hkeep fun q hq' => ?_
      rw [hloc] at hq'
      obtain ⟨_, _, _, h4, _⟩ := TCB.loc_eq_wait.1 hq'
      have h1 : decide (WaitFactor.SEM.code ≤ q.1.code) = false := by
        rw [← h4]
        exact Bool.eq_false_iff.2 hq
      unfold Core.tpri
      rw [h1, Bool.false_and]

/-- A waiting task is detached and gets the mutex. -/
theorem CoreInv.mutexHandOver (h : CoreInv cfg D c) (ht : t ∈ c.sched.queue (.wait q)) (m : Nat) :
    CoreInv cfg (Function.update D t true) (c.mutexHandOver t m) ∧
      ((c.mutexHandOver t m).tcb t).tstat = (c.tcb t).tstat := by
  obtain ⟨hd, hl⟩ := h.of_mem ht
  obtain ⟨_, hw, hq, _⟩ := TCB.loc_eq_wait.1 hl
  have hself : Function.update D t true t = true := Function.update_self ..
  have h1 := h.waitDequeue hd hw
  rw [Core.waitDequeueWobj_eq hq] at h1
  have h2 := h1.setWercd hself E_OK
  have htcb : ((((c.queueDelete t).waitDequeueTmevtb t).setWercd t E_OK).tcb t).tstat =
      (c.tcb t).tstat := by
    rw [Core.setWercd, Core.setWinfo_tcb, Core.waitDequeueTmevtb_tcb]
    rfl
  unfold Core.mutexHandOver Core.setLoctsk
  simp only
  split
  · rename_i hlt
    have ht := h2.task t
    refine ⟨h2.flags.setTcb_detached hself ⟨ht.legal, hlt.2.trans ht.priority, ht.bpriority,
      ht.ipriority, by simp, by simp, ht.range⟩, ?_⟩
    rw [Core.setTcb_self]
    exact htcb
  · exact ⟨h2.flags, htcb⟩

theorem CoreInv.mutexRelease (h : CoreInv cfg D c) (m : Nat) :
    CoreInv cfg D (c.mutexRelease m).1 := by
  unfold Core.mutexRelease
  split
  · exact h.flags
  · rename_i t ht
    have hm := mem_of_headTsk ht
    obtain ⟨hd, hl⟩ := h.of_mem hm
    obtain ⟨h1, hs⟩ := h.mutexHandOver hm m
    have h2 := h1.makeNonWait (Function.update_self ..) (by
      rw [hs]
      exact (TCB.loc_eq_wait.1 hl).2.1)
    rwa [update_attached hd] at h2

theorem CoreInv.mutexReleaseAllLoop (h : CoreInv cfg D c) (n t : Nat) :
    CoreInv cfg D (Core.mutexReleaseAllLoop n c t).1 := by
  induction n generalizing c with
  | zero => exact h
  | succ n ih =>
    unfold Core.mutexReleaseAllLoop
    split
    · exact h
    · exact ih (CoreInv.mutexRelease h.flags _)

/-- The end of a detached task. -/
theorem CoreInv.terminate (h : CoreInv cfg D c) (hd : D t = true) (hr : t < cfg.tsk.tmax) :
    CoreInv cfg (Function.update D t false) (c.terminate t).1 := by
  have h1 : CoreInv cfg D (if c.mutexQueue t = [] then (c, false) else c.mutexReleaseAll t).1 := by
    split
    · exact h
    · exact h.mutexReleaseAllLoop _ t
  unfold Core.terminate
  simp only
  generalize (if c.mutexQueue t = [] then (c, false) else c.mutexReleaseAll t) = r at h1 ⊢
  have ht := h1.task t
  have h2 : CoreInv cfg D (r.1.makeDormant t) := h1.setTcb_detached hd
    ⟨.dormant, ht.ipriority, ht.ipriority, ht.ipriority, nofun, nofun, fun he => absurd rfl he⟩
  have htcb : ((r.1.makeDormant t).tcb t).tstat = .DORMANT :=
    congrArg TCB.tstat (Core.setTcb_self ..)
  split
  · have ht2 := h2.task t
    refine CoreInv.makeActive (CoreInv.setTcb_detached h2 hd ?_) hd hr
    exact ⟨ht2.legal, ht2.priority, ht2.bpriority, ht2.ipriority, nofun, nofun, ht2.range⟩
  · exact h2.attachIdle hd (by rw [htcb]; rfl) (by rw [htcb]; rfl)

theorem CoreInv.mutexCalcPriority_lt (h : CoreInv cfg D c) (t : Nat) :
    c.mutexCalcPriority t < TNUM_TPRI := by
  unfold Core.mutexCalcPriority
  have hb := (h.task t).bpriority
  generalize (c.tcb t).bpriority = b at hb ⊢
  induction c.mutexQueue t generalizing b with
  | nil => exact hb
  | cons m l ih =>
    rw [List.foldl_cons]
    refine ih _ ?_
    split
    · rename_i hlt
      exact hlt.2.trans hb
    · exact hb

theorem CoreInv.mutexRaisePriority (h : CoreInv cfg D c) (hd : D t = false)
    (new : Nat) : CoreInv cfg D (c.mutexRaisePriority t new).1 := by
  unfold Core.mutexRaisePriority
  split
  · rename_i hlt
    exact h.changePriority hd (hlt.trans (h.task t).priority) true
  · exact h

theorem CoreInv.mutexDropPriority (h : CoreInv cfg D c) (hd : D t = false)
    (old : Nat) : CoreInv cfg D (c.mutexDropPriority t old).1 := by
  unfold Core.mutexDropPriority
  split
  · simp only
    split
    · exact h.changePriority hd (h.mutexCalcPriority_lt t) true
    · exact h
  · exact h

theorem CoreInv.mutexAcquire (h : CoreInv cfg D c) (hd : D t = false)
    (m : Nat) : CoreInv cfg D (c.mutexAcquire t m).1 := by
  unfold Core.mutexAcquire
  simp only
  split
  · refine CoreInv.mutexRaisePriority ?_ hd _
    exact h.flags
  · exact h.flags

end

end AspKernel
