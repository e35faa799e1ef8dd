import AspKernel.TaskOps
import AspKernel.Cyclic
import AspKernel.Alarm

namespace AspKernel
set_option autoImplicit true

section
variable {cfg : Cfg} {D : Nat → Bool} {c : Core}

/-- The attribute of an object whose queue is empty makes no difference to the order of queues. -/
theorem SchedInv.tpri_congr {s : Sched} (h : SchedInv L pri tp s)
    (hq : ∀ q, tp' q ≠ tp q → s.queue (.wait q) = []) : SchedInv L pri tp' s where
  linked := h.linked
  ready_pri := h.ready_pri
  primap := h.primap
  bitmap := h.bitmap
  sorted q := by
    by_cases ht : tp' q = tp q
    · rw [ht]
      exact h.sorted q
    · rw [hq q ht]
      exact .nil
  fresh := h.fresh
  top := h.top

/-- No task waits for an object that does not exist. -/
theorem CoreInv.queue_eq_nil (h : CoreInv cfg D c) (hq : c.wobjatr q.main = TA_NOEXS) :
    c.sched.queue (.wait q) = [] := by
  refine List.eq_nil_iff_forall_not_mem.2 fun t ht => ?_
  exact h.exist t q (h.sched.linked.mem.1 ht) hq

theorem CoreInv.loc_ne_wait (h : CoreInv cfg D c) (hq : c.sched.queue (.wait q) = []) :
    c.loc D t ≠ some (.wait q) := fun hl => by
  have hm := h.sched.linked.mem.2 hl
  rw [hq] at hm
  cases hm

theorem Core.initQueue_eq (hq : c.sched.queue (.wait q) = []) : c.initQueue q = c := by
  unfold Core.initQueue
  rw [← hq, Function.update_eq_self]

theorem Core.initWobj_eq (hq : c.sched.queue (.wait q) = []) (atr : ATR) :
    c.initWobj q atr = { c with wobjatr := Function.update c.wobjatr q atr } := by
  unfold Core.initWobj
  rw [Core.initQueue_eq hq]

theorem tpri_of_ne {c' : Core} (hq : c'.wobjatr q = c.wobjatr q) : c'.tpri q = c.tpri q := by
  unfold Core.tpri
  rw [hq]

/-- A change of the attribute of an object in whose queues no task waits. -/
theorem CoreInv.setWobjatr (h : CoreInv cfg D c) (hq : ∀ q', q'.main = q →
    c.sched.queue (.wait q') = []) (hmain : q.main = q) (hn : ∀ f, (l f).Nodup)
    (hl : ∀ f, ∀ i ∈ l f, Function.update c.wobjatr q atr (f, i) = TA_NOEXS) :
    CoreInv cfg D { c with wobjatr := Function.update c.wobjatr q atr, freeWobj := l } where
  sched := by
    refine h.sched.tpri_congr fun q' hne => ?_
    by_cases hqq : q' = q
    · exact hq q' (hqq ▸ hmain)
    · exact absurd (tpri_of_ne (Function.update_of_ne hqq ..)) hne
  timer := h.timer
  task := h.task
  free := ⟨h.free.1, h.free.2, hn, hl, h.free.5, h.free.6, h.free.7, h.free.8,
    h.free.9, h.free.10⟩
  exist t q' ht := by
    have hne : q'.main ≠ q := fun he => h.loc_ne_wait (hq q' he) ht
    simp only [Function.update_of_ne hne]
    exact h.exist t q' ht
  asserts := h.asserts

/-- The creation of a wait object. -/
theorem CoreInv.newWobj (h : CoreInv cfg D c) (hmain : WQueue.main (f, i) = (f, i))
    (ht : c.takeWobj n f = some (i, c')) (atr : ATR) :
    CoreInv cfg D (c'.initWobj (f, i) atr) ∧
      ∀ q, q.main = (f, i) → c.sched.queue (.wait q) = [] := by
  unfold Core.takeWobj at ht
  split at ht
  · cases ht
  · rename_i j l hl
    split at ht
    · cases ht
    · cases ht
      have hnd := h.free.wobj_nodup f
      have hno := h.free.wobj f
      rw [hl] at hnd hno
      have hatr := hno i (List.mem_cons_self ..)
      have hempty (q : WQueue) (hq : q.main = (f, i)) : c.sched.queue (.wait q) = [] :=
        h.queue_eq_nil (by rwa [hq])
      refine ⟨?_, hempty⟩
      rw [Core.initWobj_eq (c := { c with freeWobj := Function.update c.freeWobj f l })
        (hempty (f, i) hmain)]
      refine h.setWobjatr (l := Function.update c.freeWobj f l) hempty hmain (fun g => ?_)
        fun g j hj => ?_
      · by_cases hg : g = f
        · subst hg
          rw [Function.update_self]
          exact (List.nodup_cons.1 hnd).2
        · rw [Function.update_of_ne hg]
          exact h.free.wobj_nodup g
      · by_cases hg : g = f
        · subst hg
          rw [Function.update_self] at hj
          have hji : (g, j) ≠ (g, i) := by
            rintro ⟨⟩
            exact (List.nodup_cons.1 hnd).1 hj
          rw [Function.update_of_ne hji]
          exact hno j (List.mem_cons_of_mem _ hj)
        · rw [Function.update_of_ne hg] at hj
          rw [Function.update_of_ne fun he => hg (congrArg Prod.fst he)]
          exact h.free.wobj g j hj

/-- The deletion of a wait object whose queues are empty. -/
theorem CoreInv.freeWobjcb (h : CoreInv cfg D c) (hmain : q.main = q)
    (hq : ∀ q', q'.main = q → c.sched.queue (.wait q') = []) (hex : c.wobjatr q ≠ TA_NOEXS) :
    CoreInv cfg D (c.freeWobjcb q) := by
  refine h.setWobjatr (l := Function.update c.freeWobj q.1 (c.freeWobj q.1 ++ [q.2])) hq hmain
    (fun g => ?_) fun g j hj => ?_
  · by_cases hg : g = q.1
    · subst hg
      rw [Function.update_self]
      refine List.nodup_append.2 ⟨h.free.wobj_nodup _, List.nodup_singleton _, ?_⟩
      rintro j hj k hk rfl
      rw [List.mem_singleton.1 hk] at hj
      exact hex (h.free.wobj _ _ hj)
    · rw [Function.update_of_ne hg]
      exact h.free.wobj_nodup g
  · by_cases hgj : (g, j) = q
    · rw [hgj, Function.update_self]
    · rw [Function.update_of_ne hgj]
      by_cases hg : g = q.1
      · subst hg
        rw [Function.update_self, List.mem_append, List.mem_singleton] at hj
        rcases hj with hj | hj
        · exact h.free.wobj _ _ hj
        · exact absurd (by rw [hj]) hgj
      · rw [Function.update_of_ne hg] at hj
        exact h.free.wobj _ _ hj

/-- The creation of a task. -/
theorem CoreInv.newTsk (h : CoreInv cfg D c) (ht : c.takeTcb = some (t, c'))
    (hi : tinib.ipriority < TNUM_TPRI) : CoreInv cfg D (c'.initTcb t tinib) ∧
      t < cfg.tsk.tmax ∧ t ∉ (c'.initTcb t tinib).freeTcb ∧ D t = false ∧
      (c.tcb t).tstat = .DORMANT := by
  unfold Core.takeTcb at ht
  split at ht
  · cases ht
  · rename_i u l hl
    cases ht
    have hnd := h.free.tcb_nodup
    have hmem := h.free.tcb
    rw [hl] at hnd hmem
    obtain ⟨hlt, hd, _, hdor⟩ := hmem t (List.mem_cons_self ..)
    have hnot := (List.nodup_cons.1 hnd).1
    have h1 : CoreInv cfg D { c with freeTcb := l } := by
      refine ⟨h.sched, h.timer, h.task, ?_, h.exist, h.asserts⟩
      exact ⟨(List.nodup_cons.1 hnd).2, fun v hv => hmem v (List.mem_cons_of_mem _ hv), h.free.3,
        h.free.4, h.free.5, h.free.6, h.free.7, h.free.8, h.free.9, h.free.10⟩
    have hold : (c.tcb t).loc = none := TCB.loc_idle (by rw [hdor]; rfl) (by rw [hdor]; rfl)
    have h2 : CoreInv cfg D (Core.setTcb { c with freeTcb := l } t { c.tcb t with
        tinib := tinib, actque := false, tstat := .DORMANT, bpriority := tinib.ipriority,
        priority := tinib.ipriority, wupque := false, enatex := false, texptn := 0,
        texraised := 0, texpassed := 0 }) := by
      refine h1.setTcb ⟨.dormant, hi, hi, hi, nofun, nofun, fun he => absurd rfl he⟩
        (fun _ => hold.symm) (fun o ho _ => ?_) (fun _ => ?_) nofun (fun hm => absurd hm hnot)
      · rw [Core.loc_attached (c := { c with freeTcb := l }) hd] at ho
        rw [hold] at ho
        cases ho
      · exact (TCB.timed_of_not_waiting (by rw [hdor]; rfl)).symm
    refine ⟨?_, hlt, hnot, hd, hdor⟩
    unfold Core.initTcb Core.makeDormant
    simp only [Core.setTcb_self, Core.setTcb_setTcb]
    exact h2.flags

theorem CoreInv.delTsk (h : CoreInv cfg D c) (hn : c.noTsk t = false) (hd : D t = false)
    (hs : (c.tcb t).tstat = .DORMANT) (ht : t < cfg.tsk.tmax) :
    CoreInv cfg D { c.setTcb t { c.tcb t with tinib := { (c.tcb t).tinib with tskatr := TA_NOEXS } }
      with freeTcb := c.freeTcb ++ [t] } := by
  have hnot : t ∉ c.freeTcb := fun hm => by
    have hno := (h.free.tcb t hm).2.2.1
    unfold Core.noTsk at hn
    rw [hno, beq_self_eq_true] at hn
    cases hn
  have h1 := h.setTcb_frame
    (p := { c.tcb t with tinib := { (c.tcb t).tinib with tskatr := TA_NOEXS } })
    rfl rfl rfl rfl (h.task t).bpriority (.inr hnot)
  refine ⟨h1.sched, h1.timer, h1.task, ?_, h1.exist, h1.asserts⟩
  refine ⟨?_, fun u hu => ?_, h.free.3, h.free.4, h.free.5, h.free.6, h.free.7, h.free.8,
    h.free.9, h.free.10⟩
  · refine List.nodup_append.2 ⟨h.free.tcb_nodup, List.nodup_singleton _, ?_⟩
    rintro u hu v hv rfl
    rw [List.mem_singleton.1 hv] at hu
    exact hnot hu
  · rcases List.mem_append.1 hu with hu | hu
    · exact h1.free.tcb u hu
    · rw [List.mem_singleton.1 hu]
      refine ⟨ht, hd, ?_⟩
      change ((c.setTcb t _).tcb t).tinib.tskatr = _ ∧ ((c.setTcb t _).tcb t).tstat = _
      rw [Core.setTcb_self]
      exact ⟨rfl, hs⟩

theorem expects_setCyc (c : Core) (D : Nat → Bool) (i : Nat) (p : CYCCB) :
    (c.setCyc i p).expects D = Function.update (c.expects D) (.cyc i) p.cycsta := by
  funext e
  by_cases he : e = .cyc i
  · subst he
    rw [Function.update_self]
    simp only [Core.expects, Core.setCyc, Function.update_self]
  · rw [Function.update_of_ne he]
    cases e with
    | cyc j => simp only [Core.expects, Core.setCyc, Function.update_of_ne fun h => he (congrArg _ h)]
    | tsk t => rfl
    | alm j => rfl

theorem expects_setAlm (c : Core) (D : Nat → Bool) (i : Nat) (p : ALMCB) :
    (c.setAlm i p).expects D = Function.update (c.expects D) (.alm i) p.almsta := by
  funext e
  by_cases he : e = .alm i
  · subst he
    rw [Function.update_self]
    simp only [Core.expects, Core.setAlm, Function.update_self]
  · rw [Function.update_of_ne he]
    cases e with
    | alm j => simp only [Core.expects, Core.setAlm, Function.update_of_ne fun h => he (congrArg _ h)]
    | tsk t => rfl
    | cyc j => rfl

/-- A change of a cyclic handler together with its time event. -/
theorem CoreInv.setCyc (h : CoreInv cfg D c) {p : CYCCB}
    (hn : i ∈ c.freeCyccb → p.cycatr = TA_NOEXS ∧ p.cycsta = false)
    (hr : p.cycsta = true → i < cfg.cyc.tmax)
    (htm : TimerInv (Function.update (c.expects D) (.cyc i) p.cycsta) c.callbackOf m) :
    CoreInv cfg D { c.setCyc i p with tm := m } := by
  rw [← expects_setCyc] at htm
  refine ⟨h.sched, htm, h.task, ?_, h.exist, h.asserts⟩
  refine ⟨h.free.1, h.free.2, h.free.3, h.free.4, h.free.5, fun j hj => ?_, h.free.7, h.free.8,
    fun j hj => ?_, h.free.10⟩
  · simp only [Core.setCyc]
    by_cases hji : j = i
    · subst hji
      rw [Function.update_self]
      exact ⟨(h.free.cyc j hj).1, hn hj⟩
    · rw [Function.update_of_ne hji]
      exact h.free.cyc j hj
  · simp only [Core.setCyc] at hj
    by_cases hji : j = i
    · subst hji
      rw [Function.update_self] at hj
      exact hr hj
    · rw [Function.update_of_ne hji] at hj
      exact h.free.cyc_range j hj

theorem CoreInv.setAlm (h : CoreInv cfg D c) {p : ALMCB}
    (hn : i ∈ c.freeAlmcb → p.almatr = TA_NOEXS ∧ p.almsta = false)
    (hr : p.almsta = true → i < cfg.alm.tmax)
    (htm : TimerInv (Function.update (c.expects D) (.alm i) p.almsta) c.callbackOf m) :
    CoreInv cfg D { c.setAlm i p with tm := m } := by
  rw [← expects_setAlm] at htm
  refine ⟨h.sched, htm, h.task, ?_, h.exist, h.asserts⟩
  refine ⟨h.free.1, h.free.2, h.free.3, h.free.4, h.free.5, h.free.6, h.free.7, fun j hj => ?_,
    h.free.9, fun j hj => ?_⟩
  · simp only [Core.setAlm]
    by_cases hji : j = i
    · subst hji
      rw [Function.update_self]
      exact ⟨(h.free.alm j hj).1, hn hj⟩
    · rw [Function.update_of_ne hji]
      exact h.free.alm j hj
  · simp only [Core.setAlm] at hj
    by_cases hji : j = i
    · subst hji
      rw [Function.update_self] at hj
      exact hr hj
    · rw [Function.update_of_ne hji] at hj
      exact h.free.alm_range j hj

/-- A time event is registered that has to be registered then. -/
theorem TimerInv.enqueue {E : TmevtbPtr → Bool} {K : TmevtbPtr → CBack} {tm : Timer}
    (h : TimerInv (Function.update E e false) K tm) (time : EVTTIM) (d : Option RELTIM) :
    TimerInv (Function.update E e true) K (tm.register e time (K e) d) := by
  have hr := h.register (p := e) (Function.update_self ..) time (K e) d
  rwa [Function.update_idem, Function.update_eq_self] at hr

theorem notFree_cyc (h : CoreInv cfg D c) (hn : c.noCyc i = false) : i ∉ c.freeCyccb :=
  fun hm => by
    unfold Core.noCyc at hn
    rw [(h.free.cyc i hm).2.1, beq_self_eq_true] at hn
    cases hn

theorem notFree_alm (h : CoreInv cfg D c) (hn : c.noAlm i = false) : i ∉ c.freeAlmcb :=
  fun hm => by
    unfold Core.noAlm at hn
    rw [(h.free.alm i hm).2.1, beq_self_eq_true] at hn
    cases hn

/-- The time event of a handler, at the moment when it is not registered. -/
theorem CoreInv.enqueueCyc (h : CoreInv cfg D c) (hn : i ∉ c.freeCyccb)
    (hr : i < cfg.cyc.tmax) (hp : p.cycsta = true)
    (htm : TimerInv (Function.update (c.expects D) (.cyc i) false) c.callbackOf tm)
    (time : EVTTIM) : CoreInv cfg D { c.setCyc i p with
      tm := tm.tmevtbEnqueueEvttim (.cyc i) time .callCychdr } :=
  h.setCyc (fun hm => absurd hm hn) (fun _ => hr) (hp ▸ htm.enqueue time none)

theorem tmevtbEnqueueCyc_setCyc (c : Core) (i : Nat) (p : CYCCB) (tm : Timer) (time : EVTTIM) :
    Core.tmevtbEnqueueCyc { c.setCyc i p with tm := tm } i time =
      { c.setCyc i { p with evttim := time } with
        tm := tm.tmevtbEnqueueEvttim (.cyc i) time .callCychdr } := by
  unfold Core.tmevtbEnqueueCyc Core.setCyc
  simp only [Function.update_idem, Function.update_self]

theorem CoreInv.startCyc (h : CoreInv cfg D c) (hn : i ∉ c.freeCyccb)
    (hr : i < cfg.cyc.tmax) (hs : (c.cyccb i).cycsta = false) (time : EVTTIM) :
    CoreInv cfg D ((c.setCyc i { c.cyccb i with cycsta := true }).tmevtbEnqueueCyc i time) := by
  have htm : TimerInv (Function.update (c.expects D) (.cyc i) false) c.callbackOf c.tm :=
    h.timer.same hs
  have he := tmevtbEnqueueCyc_setCyc c i { c.cyccb i with cycsta := true } c.tm time
  rw [show (c.setCyc i { c.cyccb i with cycsta := true }).tmevtbEnqueueCyc i time = _ from he]
  exact h.enqueueCyc hn hr rfl htm time

theorem CoreInv.stopCyc (h : CoreInv cfg D c) (i : Nat) : CoreInv cfg D (c.stopCyc i) := by
  unfold Core.stopCyc
  split
  · rename_i hs
    refine h.setCyc (fun hm => ⟨(h.free.cyc i hm).2.1, rfl⟩) nofun ?_
    exact h.timer.tmevtbDequeue hs
  · exact h

theorem CoreInv.newCyc (h : CoreInv cfg D c) (hl : c.freeCyccb = i :: l) (p : CYCCB)
    (hp : p.cycsta = false) :
    CoreInv cfg D (Core.setCyc { c with freeCyccb := l } i p) ∧
      i < cfg.cyc.tmax ∧ i ∉ l ∧ (c.cyccb i).cycsta = false := by
  have hnd := h.free.cyc_nodup
  have hmem := h.free.cyc
  rw [hl] at hnd hmem
  obtain ⟨hlt, _, hs⟩ := hmem i (List.mem_cons_self ..)
  have hnot := (List.nodup_cons.1 hnd).1
  have h1 : CoreInv cfg D { c with freeCyccb := l } := by
    refine ⟨h.sched, h.timer, h.task, ?_, h.exist, h.asserts⟩
    exact ⟨h.free.1, h.free.2, h.free.3, h.free.4, (List.nodup_cons.1 hnd).2,
      fun j hj => hmem j (List.mem_cons_of_mem _ hj), h.free.7, h.free.8, h.free.9, h.free.10⟩
  refine ⟨?_, hlt, hnot, hs⟩
  refine h1.setCyc (m := c.tm) (fun hm => absurd hm hnot) (fun hs' => ?_) ?_
  · rw [hp] at hs'
    cases hs'
  · rw [hp]
    exact h.timer.same hs

theorem CoreInv.delCyc (h : CoreInv cfg D c) (hn : i ∉ c.freeCyccb) (hr : i < cfg.cyc.tmax)
    (hs : (c.cyccb i).cycsta = false) :
    CoreInv cfg D { c.setCyc i { c.cyccb i with cycatr := TA_NOEXS } with
      freeCyccb := c.freeCyccb ++ [i] } := by
  have h1 := h.setCyc (p := { c.cyccb i with cycatr := TA_NOEXS }) (m := c.tm)
    (fun hm => absurd hm hn) (fun _ => hr) (h.timer.same rfl)
  refine ⟨h1.sched, h1.timer, h1.task, ?_, h1.exist, h1.asserts⟩
  refine ⟨h.free.1, h.free.2, h.free.3, h.free.4, ?_, fun j hj => ?_, h.free.7, h.free.8,
    h1.free.9, h.free.10⟩
  · refine List.nodup_append.2 ⟨h.free.cyc_nodup, List.nodup_singleton _, ?_⟩
    rintro j hj k hk rfl
    rw [List.mem_singleton.1 hk] at hj
    exact hn hj
  · rcases List.mem_append.1 hj with hj | hj
    · exact h1.free.cyc j hj
    · rw [List.mem_singleton.1 hj]
      simp only [Core.setCyc, Function.update_self]
      exact ⟨hr, trivial, hs⟩

theorem CoreInv.startAlm (h : CoreInv cfg D c) (hn : i ∉ c.freeAlmcb)
    (hr : i < cfg.alm.tmax) (hs : (c.almcb i).almsta = false) (time : RELTIM) :
    CoreInv cfg D { c.setAlm i { c.almcb i with almsta := true } with
      tm := c.tm.tmevtbEnqueue (.alm i) time .callAlmhdr } := by
  have htm : TimerInv (Function.update (c.expects D) (.alm i) false) c.callbackOf c.tm :=
    h.timer.same hs
  exact h.setAlm (fun hm => absurd hm hn) (fun _ => hr) (htm.enqueue _ (some time))

theorem CoreInv.stopAlm (h : CoreInv cfg D c) (i : Nat) : CoreInv cfg D (c.stopAlm i) := by
  unfold Core.stopAlm
  split
  · rename_i hs
    refine h.setAlm (fun hm => ⟨(h.free.alm i hm).2.1, rfl⟩) nofun ?_
    exact h.timer.tmevtbDequeue hs
  · exact h

theorem CoreInv.newAlm (h : CoreInv cfg D c) (hl : c.freeAlmcb = i :: l) (atr : ATR) :
    CoreInv cfg D (Core.setAlm { c with freeAlmcb := l } i ⟨atr, false⟩) := by
  have hnd := h.free.alm_nodup
  have hmem := h.free.alm
  rw [hl] at hnd hmem
  obtain ⟨_, _, hs⟩ := hmem i (List.mem_cons_self ..)
  have h1 : CoreInv cfg D { c with freeAlmcb := l } := by
    refine ⟨h.sched, h.timer, h.task, ?_, h.exist, h.asserts⟩
    exact ⟨h.free.1, h.free.2, h.free.3, h.free.4, h.free.5, h.free.6, (List.nodup_cons.1 hnd).2,
      fun j hj => hmem j (List.mem_cons_of_mem _ hj), h.free.9, h.free.10⟩
  exact h1.setAlm (m := c.tm) (fun hm => absurd hm (List.nodup_cons.1 hnd).1) nofun
    (h.timer.same hs)

theorem CoreInv.delAlm (h : CoreInv cfg D c) (hn : i ∉ c.freeAlmcb) (hr : i < cfg.alm.tmax)
    (hs : (c.almcb i).almsta = false) :
    CoreInv cfg D { c.setAlm i { c.almcb i with almatr := TA_NOEXS } with
      freeAlmcb := c.freeAlmcb ++ [i] } := by
  have h1 := h.setAlm (p := { c.almcb i with almatr := TA_NOEXS }) (m := c.tm)
    (fun hm => absurd hm hn) (fun _ => hr) (h.timer.same rfl)
  refine ⟨h1.sched, h1.timer, h1.task, ?_, h1.exist, h1.asserts⟩
  refine ⟨h.free.1, h.free.2, h.free.3, h.free.4, h.free.5, h.free.6, ?_, fun j hj => ?_,
    h.free.9, h1.free.10⟩
  · refine List.nodup_append.2 ⟨h.free.alm_nodup, List.nodup_singleton _, ?_⟩
    rintro j hj k hk rfl
    rw [List.mem_singleton.1 hk] at hj
    exact hn hj
  · rcases List.mem_append.1 hj with hj | hj
    · exact h1.free.alm j hj
    · rw [List.mem_singleton.1 hj]
      simp only [Core.setAlm, Function.update_self]
      exact ⟨hr, trivial, hs⟩

end

end AspKernel
