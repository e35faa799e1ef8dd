import AspKernel.ObjOps

namespace AspKernel
set_option autoImplicit true

/-- The variables of the processor and the dispatcher. -/
def Core.cpu (c : Core) :=
  (c.pRuntsk, c.reqflg, c.ipmflg, c.disdsp, c.dspflg, c.intnest, c.cpulock, c.sigtim)

/-- What a change leaves alone: no task enters a wait queue outside of `P`, no task but those of
`N` stops being runnable, and the scheduled task changes only where a dispatch is asked for. -/
structure RFrame (N : Nat → Prop) (P : WQueue → Prop) (b : Bool) (c c' : Core) : Prop where
  cpu : c'.cpu = c.cpu
  signal : b = false → c'.sched.pSchedtsk = c.sched.pSchedtsk ∨ c.dspflg = false
  wait : ∀ u q, ¬P q → (c'.tcb u).loc = some (.wait q) →
    (c.tcb u).loc = some (.wait q) ∧ (c'.tcb u).winfo = (c.tcb u).winfo
  runnable : ∀ u, ¬N u → (c.tcb u).tstat.runnable = true → (c'.tcb u).tstat.runnable = true

/-- What a change that has nothing to do with mutexes leaves alone. -/
structure MFrame (c c' : Core) : Prop where
  mtxcb : c'.mtxcb = c.mtxcb
  mutexQueue : c'.mutexQueue = c.mutexQueue
  atr : ∀ m, c'.wobjatr (.MTX, m) = c.wobjatr (.MTX, m)
  free : c'.freeWobj .MTX = c.freeWobj .MTX
  priority : ∀ u, (c'.tcb u).priority = (c.tcb u).priority
  bpriority : ∀ u, (c'.tcb u).bpriority = (c.tcb u).bpriority
  dormant : ∀ u, (c'.tcb u).tstat = .DORMANT → (c.tcb u).tstat = .DORMANT

section
variable {N : Nat → Prop} {P : WQueue → Prop} {c c' c'' : Core}

theorem Core.dspflg_eq (h : c'.cpu = c.cpu) : c'.dspflg = c.dspflg :=
  congrArg (fun r => r.2.2.2.2.1) h

theorem RFrame.refl : RFrame N P false c c := ⟨rfl, fun _ => .inl rfl, fun _ _ _ h => ⟨h, rfl⟩, fun _ _ h => h⟩

theorem RFrame.trans (h : RFrame N P b c c') (h' : RFrame N P b' c' c'') :
    RFrame N P (b || b') c c'' where
  cpu := h'.cpu.trans h.cpu
  signal hb := by
    obtain ⟨hb, hb'⟩ := Bool.or_eq_false_iff.1 hb
    rcases h.signal hb with h1 | h1
    · rcases h'.signal hb' with h2 | h2
      · exact .inl (h2.trans h1)
      · exact .inr ((Core.dspflg_eq h.cpu).symm.trans h2)
    · exact .inr h1
  wait u q hq hl := by
    obtain ⟨h1, h2⟩ := h'.wait u q hq hl
    obtain ⟨h3, h4⟩ := h.wait u q hq h1
    exact ⟨h3, h2.trans h4⟩
  runnable u hu hr := h'.runnable u hu (h.runnable u hu hr)

theorem RFrame.mono {N' : Nat → Prop} {P' : WQueue → Prop} (h : RFrame N P b c c')
    (hN : ∀ u, N u → N' u) (hP : ∀ q, P q → P' q) (hb : b = true → b' = true) :
    RFrame N' P' b' c c' where
  cpu := h.cpu
  signal hb' := h.signal (by
    by_contra hne
    rw [hb (Bool.not_eq_false _ ▸ hne)] at hb'
    cases hb')
  wait u q hq := h.wait u q fun hp => hq (hP q hp)
  runnable u hu := h.runnable u fun hn => hu (hN u hn)

theorem MFrame.refl : MFrame c c := ⟨rfl, rfl, fun _ => rfl, rfl, fun _ => rfl, fun _ => rfl, fun _ h => h⟩

theorem MFrame.trans (h : MFrame c c') (h' : MFrame c' c'') : MFrame c c'' where
  mtxcb := h'.mtxcb.trans h.mtxcb
  mutexQueue := h'.mutexQueue.trans h.mutexQueue
  atr m := (h'.atr m).trans (h.atr m)
  free := h'.free.trans h.free
  priority u := (h'.priority u).trans (h.priority u)
  bpriority u := (h'.bpriority u).trans (h.bpriority u)
  dormant u hu := h.dormant u (h'.dormant u hu)

/-- A change that leaves the control blocks of the tasks alone. -/
theorem RFrame.of_tcb (hc : c'.cpu = c.cpu) (ht : c'.tcb = c.tcb)
    (hs : b = false → c'.sched.pSchedtsk = c.sched.pSchedtsk ∨ c.dspflg = false) :
    RFrame N P b c c' := by
  refine ⟨hc, hs, ?_, ?_⟩
  · rw [ht]
    exact fun _ _ _ h => ⟨h, rfl⟩
  · rw [ht]
    exact fun _ _ h => h

/-- A change of one control block. -/
theorem RFrame.of_update (hc : c'.cpu = c.cpu) (ht : c'.tcb = Function.update c.tcb t p)
    (hs : b = false → c'.sched.pSchedtsk = c.sched.pSchedtsk ∨ c.dspflg = false)
    (hw : ∀ q, ¬P q → p.loc = some (.wait q) →
      (c.tcb t).loc = some (.wait q) ∧ p.winfo = (c.tcb t).winfo)
    (hr : ¬N t → (c.tcb t).tstat.runnable = true → p.tstat.runnable = true) :
    RFrame N P b c c' := by
  refine ⟨hc, hs, fun u q hq hl => ?_, fun u hu hru => ?_⟩
  · rw [ht] at hl ⊢
    by_cases hut : u = t
    · subst hut
      rw [Function.update_self] at hl ⊢
      exact hw q hq hl
    · rw [Function.update_of_ne hut] at hl ⊢
      exact ⟨hl, rfl⟩
  · rw [ht]
    by_cases hut : u = t
    · subst hut
      rw [Function.update_self]
      exact hr hu hru
    · rwa [Function.update_of_ne hut]

theorem MFrame.of_update (ht : c'.tcb = Function.update c.tcb t p) (h1 : c'.mtxcb = c.mtxcb)
    (h2 : c'.mutexQueue = c.mutexQueue) (h3 : ∀ m, c'.wobjatr (.MTX, m) = c.wobjatr (.MTX, m))
    (h4 : c'.freeWobj .MTX = c.freeWobj .MTX) (hp : p.priority = (c.tcb t).priority)
    (hb : p.bpriority = (c.tcb t).bpriority) (hd : p.tstat = .DORMANT → (c.tcb t).tstat = .DORMANT) :
    MFrame c c' := by
  refine ⟨h1, h2, h3, h4, fun u => ?_, fun u => ?_, fun u hu => ?_⟩ <;> rw [ht] at *
  · by_cases hut : u = t
    · subst hut
      rwa [Function.update_self]
    · rw [Function.update_of_ne hut]
  · by_cases hut : u = t
    · subst hut
      rwa [Function.update_self]
    · rw [Function.update_of_ne hut]
  · by_cases hut : u = t
    · subst hut
      rw [Function.update_self] at hu
      exact hd hu
    · rwa [Function.update_of_ne hut] at hu

end

/-- Only the tasks, their queues and the time events have changed. -/
def Core.Local (c c' : Core) : Prop :=
  ∃ tcb sched tm ok, c' = { c with tcb := tcb, sched := sched, tm := tm, assertOk := ok }

section
variable {N : Nat → Prop} {P : WQueue → Prop} {c c' c'' : Core}

theorem Core.Local.refl (c : Core) : c.Local c := ⟨_, _, _, _, rfl⟩

theorem Core.Local.trans (h : c.Local c') (h' : c'.Local c'') : c.Local c'' := by
  obtain ⟨_, _, _, _, rfl⟩ := h
  obtain ⟨_, _, _, _, rfl⟩ := h'
  exact ⟨_, _, _, _, rfl⟩

theorem Core.Local.cpu (h : c.Local c') : c'.cpu = c.cpu := by
  obtain ⟨_, _, _, _, rfl⟩ := h
  rfl

theorem MFrame.of_local (h : c.Local c') (ht : c'.tcb = Function.update c.tcb t p)
    (hp : p.priority = (c.tcb t).priority) (hb : p.bpriority = (c.tcb t).bpriority)
    (hd : p.tstat = .DORMANT → (c.tcb t).tstat = .DORMANT) : MFrame c c' := by
  obtain ⟨_, _, _, _, rfl⟩ := h
  exact .of_update ht rfl rfl (fun _ => rfl) rfl hp hb hd

theorem MFrame.of_tcb (h : c.Local c') (ht : c'.tcb = c.tcb) : MFrame c c' := by
  obtain ⟨_, _, _, _, rfl⟩ := h
  cases ht
  exact ⟨rfl, rfl, fun _ => rfl, rfl, fun _ => rfl, fun _ => rfl, fun _ hd => hd⟩

theorem local_setTcb (c : Core) (t : Nat) (p : TCB) : c.Local (c.setTcb t p) := ⟨_, _, _, _, rfl⟩

theorem local_queueDelete (c : Core) (t : Nat) : c.Local (c.queueDelete t) := ⟨_, _, _, _, rfl⟩

theorem local_makeRunnable (c : Core) (t : Nat) : c.Local (c.makeRunnable t).1 := ⟨_, _, _, _, rfl⟩

theorem local_makeNonRunnable (c : Core) (t : Nat) : c.Local (c.makeNonRunnable t).1 :=
  ⟨_, _, _, _, rfl⟩

theorem local_waitDequeueWobj (c : Core) (t : Nat) : c.Local (c.waitDequeueWobj t) := by
  unfold Core.waitDequeueWobj
  split <;> exact ⟨_, _, _, _, rfl⟩

theorem local_waitDequeueTmevtb (c : Core) (t : Nat) : c.Local (c.waitDequeueTmevtb t) := by
  unfold Core.waitDequeueTmevtb
  split <;> exact ⟨_, _, _, _, rfl⟩

theorem local_makeNonWait (c : Core) (t : Nat) : c.Local (c.makeNonWait t).1 := by
  unfold Core.makeNonWait
  simp only
  split <;> exact ⟨_, _, _, _, rfl⟩

theorem local_changePriority (c : Core) (t new : Nat) (m : Bool) :
    c.Local (c.changePriority t new m).1 := by
  unfold Core.changePriority Core.wobjChangePriority
  simp only
  split
  · exact ⟨_, _, _, _, rfl⟩
  · split
    · simp only
      split <;> exact ⟨_, _, _, _, rfl⟩
    · exact ⟨_, _, _, _, rfl⟩

theorem waitDequeueWobj_pSchedtsk (c : Core) (t : Nat) :
    (c.waitDequeueWobj t).sched.pSchedtsk = c.sched.pSchedtsk := by
  unfold Core.waitDequeueWobj
  split <;> rfl

theorem waitDequeueTmevtb_sched (c : Core) (t : Nat) :
    (c.waitDequeueTmevtb t).sched = c.sched := by
  unfold Core.waitDequeueTmevtb
  split <;> rfl

/-- The state of a task after its wait. -/
def TStat.nonWait (s : TStat) : TStat := if s.suspended then .SUSPENDED else .RUNNABLE

theorem makeNonWait_tcb (c : Core) (t : Nat) : (c.makeNonWait t).1.tcb =
    Function.update c.tcb t { c.tcb t with tstat := (c.tcb t).tstat.nonWait } := by
  unfold Core.makeNonWait TStat.nonWait
  simp only
  split <;> rfl

/-- Whether a dispatch is asked for, after a change of the scheduled task. -/
def Core.Signals (c : Core) (r : Core × Bool) : Prop :=
  r.2 = false → r.1.sched.pSchedtsk = c.sched.pSchedtsk ∨ c.dspflg = false

theorem Core.makeRunnable_signals (c : Core) (t : Nat) : c.Signals (c.makeRunnable t) :=
  AspKernel.makeRunnable_signals c.sched c.priority c.dspflg t

theorem Core.makeNonRunnable_signals (c : Core) (t : Nat) : c.Signals (c.makeNonRunnable t) :=
  AspKernel.makeNonRunnable_signals c.sched c.priority c.dspflg t

theorem Core.makeNonWait_signals (c : Core) (t : Nat) : c.Signals (c.makeNonWait t) := by
  unfold Core.makeNonWait
  simp only
  split
  · exact fun _ => .inl rfl
  · exact makeRunnable_signals (Core.setTcb _ t _) t

theorem Core.changePriority_signals (c : Core) (t new : Nat) (m : Bool) :
    c.Signals (c.changePriority t new m) := by
  unfold Core.changePriority
  simp only
  split
  · exact AspKernel.changePriority_signals c.sched _ c.dspflg t (c.priority t) m
  · split
    · unfold Core.wobjChangePriority
      split
      · refine fun _ => .inl ?_
        unfold Sched.wobjChangePriority Sched.enterWait
        rw [if_pos rfl]
        rfl
      · exact fun _ => .inl rfl
    · exact fun _ => .inl rfl

theorem TStat.nonWait_cases (s : TStat) : s.nonWait = .SUSPENDED ∨ s.nonWait = .RUNNABLE := by
  unfold TStat.nonWait
  split
  · exact .inl rfl
  · exact .inr rfl

theorem loc_nonWait {p : TCB} (q : WQueue) (w : WInfo) :
    TCB.loc { p with tstat := p.tstat.nonWait, winfo := w } ≠ some (.wait q) := by
  intro hl
  have hw := (TCB.loc_eq_wait.1 hl).2.1
  rcases p.tstat.nonWait_cases with h | h <;> (simp only [h] at hw; cases hw)

/-- The numbers of the insertions into wait queues. -/
def Sched.numbers (s : Sched) := (s.arrival, s.arrivals)

theorem waitDequeueWobj_numbers (c : Core) (t : Nat) :
    (c.waitDequeueWobj t).sched.numbers = c.sched.numbers := by
  unfold Core.waitDequeueWobj
  split <;> rfl

/-- What happens before a wait ends: the task is detached, and its waiting information changes. -/
structure Ending (t : Nat) (w : WInfo) (c c' : Core) : Prop where
  same : c.Local c'
  tcb : c'.tcb = Function.update c.tcb t { c.tcb t with winfo := w }
  top : c'.sched.pSchedtsk = c.sched.pSchedtsk
  numbers : c'.sched.numbers = c.sched.numbers

theorem Ending.refl (c : Core) (t : Nat) : Ending t (c.tcb t).winfo c c :=
  ⟨.refl c, (Function.update_eq_self ..).symm, rfl, rfl⟩

theorem Ending.queueDelete (h : Ending t w c c') : Ending t w c (c'.queueDelete t) :=
  ⟨h.same.trans (local_queueDelete c' t), h.tcb, h.top, h.numbers⟩

theorem Ending.waitDequeueWobj (h : Ending t w c c') : Ending t w c (c'.waitDequeueWobj t) :=
  ⟨h.same.trans (local_waitDequeueWobj c' t), (c'.waitDequeueWobj_tcb t).trans h.tcb,
    (waitDequeueWobj_pSchedtsk c' t).trans h.top, (waitDequeueWobj_numbers c' t).trans h.numbers⟩

theorem Ending.waitDequeueTmevtb (h : Ending t w c c') : Ending t w c (c'.waitDequeueTmevtb t) :=
  ⟨h.same.trans (local_waitDequeueTmevtb c' t), (c'.waitDequeueTmevtb_tcb t).trans h.tcb,
    (congrArg Sched.pSchedtsk (waitDequeueTmevtb_sched c' t)).trans h.top,
    (congrArg Sched.numbers (waitDequeueTmevtb_sched c' t)).trans h.numbers⟩

theorem Ending.setWinfo (h : Ending t w c c') (w' : WInfo) :
    Ending t w' c (c'.setWinfo t w') := by
  refine ⟨h.same.trans (local_setTcb c' t _), ?_, h.top, h.numbers⟩
  unfold Core.setWinfo Core.setTcb
  simp only
  rw [h.tcb, Function.update_idem, Function.update_self]

theorem Ending.setWercd (h : Ending t w c c') (e : ER) :
    Ending t { w with cell := .wercd e } c (c'.setWercd t e) := by
  have hw : (c'.tcb t).winfo = w := by rw [h.tcb, Function.update_self]
  unfold Core.setWercd
  rw [hw]
  exact h.setWinfo _

/-- A wait ends. -/
theorem Ending.frame (h : Ending t w c c') (hr : (c.tcb t).tstat.runnable = false) :
    RFrame N P (c'.makeNonWait t).2 c (c'.makeNonWait t).1 ∧ MFrame c (c'.makeNonWait t).1 := by
  have htcb : (c'.makeNonWait t).1.tcb = Function.update c.tcb t
      { c.tcb t with tstat := (c.tcb t).tstat.nonWait, winfo := w } := by
    rw [makeNonWait_tcb, h.tcb, Function.update_idem, Function.update_self]
  have hl' := h.same.trans (local_makeNonWait c' t)
  refine ⟨.of_update hl'.cpu htcb (fun hb => ?_) (fun q _ hq => ?_) (fun _ hr' => ?_),
    .of_local hl' htcb rfl rfl fun he => ?_⟩
  · rw [← h.top, ← Core.dspflg_eq h.same.cpu]
    exact c'.makeNonWait_signals t hb
  · exact absurd hq (loc_nonWait q w)
  · rw [hr] at hr'
    cases hr'
  · rcases (c.tcb t).tstat.nonWait_cases with h | h <;> (simp only [h] at he; cases he)

theorem Ending.complete (c : Core) (t : Nat) (w : WInfo) :
    Ending t { w with cell := .wercd E_OK } c
      ((((c.queueDelete t).setWinfo t w).waitDequeueTmevtb t).setWercd t E_OK) :=
  (((Ending.refl c t).queueDelete.setWinfo w).waitDequeueTmevtb).setWercd E_OK

theorem frame_waitComplete (w : WInfo) (hr : (c.tcb t).tstat.runnable = false) :
    RFrame N P (((c.queueDelete t).setWinfo t w).waitComplete t).2 c
      (((c.queueDelete t).setWinfo t w).waitComplete t).1 ∧
    MFrame c (((c.queueDelete t).setWinfo t w).waitComplete t).1 := (Ending.complete c t w).frame hr

theorem frame_wakeup (hr : (c.tcb t).tstat.runnable = false) :
    RFrame N P (c.waitComplete t).2 c (c.waitComplete t).1 ∧ MFrame c (c.waitComplete t).1 :=
  ((Ending.refl c t).waitDequeueTmevtb.setWercd E_OK).frame hr

theorem frame_waitRelease (hr : (c.tcb t).tstat.runnable = false) :
    RFrame N P (c.waitRelease t).2 c (c.waitRelease t).1 ∧ MFrame c (c.waitRelease t).1 :=
  ((Ending.refl c t).waitDequeueWobj.waitDequeueTmevtb.setWercd E_RLWAI).frame hr

theorem frame_endQueueWait (e : ER) (hr : (c.tcb t).tstat.runnable = false) :
    RFrame N P ((((c.queueDelete t).waitDequeueTmevtb t).setWercd t e).makeNonWait t).2 c
      ((((c.queueDelete t).waitDequeueTmevtb t).setWercd t e).makeNonWait t).1 ∧
    MFrame c ((((c.queueDelete t).waitDequeueTmevtb t).setWercd t e).makeNonWait t).1 :=
  ((Ending.refl c t).queueDelete.waitDequeueTmevtb.setWercd e).frame hr

/-- A change of a control block in fields that no queue depends on. -/
structure TCB.Like (p p' : TCB) : Prop where
  tstat : p'.tstat = p.tstat
  priority : p'.priority = p.priority
  bpriority : p'.bpriority = p.bpriority
  winfo : p'.winfo = p.winfo
  ipriority : p'.tinib.ipriority = p.tinib.ipriority

theorem TCB.Like.loc {p p' : TCB} (h : p.Like p') : p'.loc = p.loc := by
  unfold TCB.loc
  rw [h.tstat, h.priority, h.winfo]

theorem frame_setTcb (h : (c.tcb t).Like p) :
    RFrame N P false c (c.setTcb t p) ∧ MFrame c (c.setTcb t p) := by
  refine ⟨.of_update rfl rfl (fun _ => .inl rfl) (fun q _ hq => ?_) (fun _ hr => ?_),
    .of_local (local_setTcb c t p) rfl h.priority h.bpriority fun hd => ?_⟩
  · exact ⟨h.loc ▸ hq, h.winfo⟩
  · rwa [h.tstat]
  · rwa [h.tstat] at hd

theorem frame_makeActive (c : Core) (t : Nat) :
    RFrame N P (c.makeActive t).2 c (c.makeActive t).1 ∧ MFrame c (c.makeActive t).1 := by
  have hl : c.Local (c.makeActive t).1 := (local_setTcb c t _).trans (local_makeRunnable _ t)
  refine ⟨.of_update hl.cpu rfl (Core.makeRunnable_signals (c.setTcb t _) t) (fun q _ hq => ?_)
    (fun _ _ => rfl), .of_local hl rfl rfl rfl nofun⟩
  cases (TCB.loc_eq_wait.1 hq).1

theorem frame_suspend (c : Core) (t : Nat) (hN : N t) :
    RFrame N P ((c.setTcb t { c.tcb t with tstat := .SUSPENDED }).makeNonRunnable t).2 c
      ((c.setTcb t { c.tcb t with tstat := .SUSPENDED }).makeNonRunnable t).1 ∧
    MFrame c ((c.setTcb t { c.tcb t with tstat := .SUSPENDED }).makeNonRunnable t).1 := by
  have hl := (local_setTcb c t { c.tcb t with tstat := .SUSPENDED }).trans
    (local_makeNonRunnable _ t)
  refine ⟨.of_update hl.cpu rfl (Core.makeNonRunnable_signals (c.setTcb t _) t) (fun q _ hq => ?_)
    (fun hn => absurd hN hn), .of_local hl rfl rfl rfl nofun⟩
  cases (TCB.loc_eq_wait.1 hq).2.1

theorem frame_resume (c : Core) (t : Nat) :
    RFrame N P ((c.setTcb t { c.tcb t with tstat := .RUNNABLE }).makeRunnable t).2 c
      ((c.setTcb t { c.tcb t with tstat := .RUNNABLE }).makeRunnable t).1 ∧
    MFrame c ((c.setTcb t { c.tcb t with tstat := .RUNNABLE }).makeRunnable t).1 := by
  have hl := (local_setTcb c t { c.tcb t with tstat := .RUNNABLE }).trans (local_makeRunnable _ t)
  refine ⟨.of_update hl.cpu rfl (Core.makeRunnable_signals (c.setTcb t _) t) (fun q _ hq => ?_)
    (fun _ _ => rfl), .of_local hl rfl rfl rfl nofun⟩
  cases (TCB.loc_eq_wait.1 hq).1

theorem frame_setSuspended (c : Core) (t : Nat) (b : Bool)
    (hw : (c.tcb t).tstat.waiting = true) :
    RFrame N P false c
      (c.setTcb t { c.tcb t with tstat := { (c.tcb t).tstat with suspended := b } }) ∧
    MFrame c (c.setTcb t { c.tcb t with tstat := { (c.tcb t).tstat with suspended := b } }) := by
  refine ⟨.of_update rfl rfl (fun _ => .inl rfl) (fun q _ hq => ⟨hq, rfl⟩) (fun _ hr => hr),
    .of_local (local_setTcb c t _) rfl rfl rfl fun hd => ?_⟩
  have hw' := congrArg TStat.waiting hd
  rw [show _ = (c.tcb t).tstat.waiting from rfl, hw] at hw'
  cases hw'

theorem frame_rotate (c : Core) (pri : Nat) :
    RFrame N P (c.rotateReadyQueue pri).2 c (c.rotateReadyQueue pri).1 ∧
      MFrame c (c.rotateReadyQueue pri).1 :=
  ⟨.of_tcb rfl rfl (rotateReadyQueue_signals c.sched c.dspflg pri),
    .of_tcb ⟨_, _, _, _, rfl⟩ rfl⟩

theorem changePriority_tcb (c : Core) (t new : Nat) (m : Bool) :
    (c.changePriority t new m).1.tcb = Function.update c.tcb t { c.tcb t with priority := new } := by
  unfold Core.changePriority Core.wobjChangePriority
  simp only
  split
  · rfl
  · split
    · simp only
      split <;> rfl
    · rfl

theorem frame_changePriority (c : Core) (t new : Nat) (m : Bool) :
    RFrame N P (c.changePriority t new m).2 c (c.changePriority t new m).1 := by
  refine .of_update (local_changePriority c t new m).cpu (changePriority_tcb c t new m)
    (c.changePriority_signals t new m) (fun q _ hq => ?_) (fun _ hr => hr)
  obtain ⟨h1, h2, h3⟩ := TCB.loc_eq_wait.1 hq
  exact ⟨TCB.loc_eq_wait.2 ⟨h1, h2, h3⟩, rfl⟩

theorem frame_block (c : Core) (t : Nat) (f : WaitFactor) (w : WInfo)
    (ev : Option (TMO × CBack)) (q : Option (WQueue × Bool)) (hN : N t) (hP : ∀ r ∈ q, P r.1)
    (hq : (TStat.WAITING f).waitWobj = q.isSome) (hf : ∀ r ∈ q, r.1.1 = f) :
    RFrame N P true c (c.block t f w ev q) ∧ MFrame c (c.block t f w ev q) := by
  have hl : c.Local (c.block t f w ev q) := ⟨_, _, _, _, rfl⟩
  refine ⟨.of_update hl.cpu rfl nofun (fun q' hp hq' => ?_) (fun hn => absurd hN hn),
    .of_local hl rfl rfl rfl nofun⟩
  rw [block_loc hq hf] at hq'
  obtain ⟨r, hr, he⟩ := Option.map_eq_some_iff.1 hq'
  cases he
  exact absurd (hP r hr) hp

variable {cfg : Cfg} {D D' : Nat → Bool}

theorem Sched.makeRunnable_wait (s : Sched) (pri : Nat → Nat) (d : Bool) (t : Nat) (q : WQueue) :
    (s.makeRunnable pri d t).1.queue (.wait q) = s.queue (.wait q) := by
  have h : Function.update s.queue (.ready (pri t)) (s.queue (.ready (pri t)) ++ [t]) (.wait q) =
      s.queue (.wait q) := Function.update_of_ne (nofun : TaskQueue.wait q ≠ .ready (pri t)) ..
  unfold Sched.makeRunnable
  simp only
  split
  · exact h
  · split <;> exact h

theorem makeNonWait_queue (c : Core) (t : Nat) (q : WQueue) :
    (c.makeNonWait t).1.sched.queue (.wait q) = c.sched.queue (.wait q) := by
  unfold Core.makeNonWait
  simp only
  split
  · rfl
  · exact Sched.makeRunnable_wait ..

theorem endQueueWait_queue (c : Core) (t : Nat) (e : ER) (q : WQueue) :
    ((((c.queueDelete t).waitDequeueTmevtb t).setWercd t e).makeNonWait t).1.sched.queue (.wait q) =
      (c.sched.queue (.wait q)).erase t := by
  rw [makeNonWait_queue]
  change ((c.queueDelete t).waitDequeueTmevtb t).sched.queue (.wait q) = _
  rw [waitDequeueTmevtb_sched]
  rfl

/-- The first task of a queue is not runnable. -/
theorem CoreInv.head_not_runnable (h : CoreInv cfg D c) (ht : c.headTsk q = some t) :
    (c.tcb t).tstat.runnable = false :=
  (TCB.loc_eq_wait.1 (h.of_mem (mem_of_headTsk ht)).2).1

theorem frame_initWaitQueueLoop (h : CoreInv cfg D c) (n : Nat) (q : WQueue) :
    RFrame N P (Core.initWaitQueueLoop n c q).2 c (Core.initWaitQueueLoop n c q).1 ∧
      MFrame c (Core.initWaitQueueLoop n c q).1 := by
  induction n generalizing c with
  | zero => exact ⟨.refl, .refl⟩
  | succ n ih =>
    unfold Core.initWaitQueueLoop
    split
    · exact ⟨.refl, .refl⟩
    · rename_i t ht
      have h1 := frame_endQueueWait (N := N) (P := P) E_DLT (h.head_not_runnable ht)
      have h2 := ih (h.endQueueWait (mem_of_headTsk ht) E_DLT)
      exact ⟨h1.1.trans h2.1, h1.2.trans h2.2⟩

theorem frame_initWaitQueue (h : CoreInv cfg D c) (q : WQueue) :
    RFrame N P (c.initWaitQueue q).2 c (c.initWaitQueue q).1 ∧ MFrame c (c.initWaitQueue q).1 :=
  frame_initWaitQueueLoop h _ q

theorem initWaitQueueLoop_queue (q : WQueue) :
    (c.sched.queue (.wait q)).length ≤ n →
      (Core.initWaitQueueLoop n c q).1.sched.queue (.wait q) = [] := by
  induction n generalizing c with
  | zero =>
    intro hn
    exact List.length_eq_zero_iff.1 (Nat.le_zero.1 hn)
  | succ n ih =>
    intro hn
    unfold Core.initWaitQueueLoop
    split
    · rename_i hh
      exact List.head?_eq_none_iff.1 hh
    · rename_i t ht
      refine ih ?_
      rw [endQueueWait_queue]
      obtain ⟨l, hl⟩ := List.head?_eq_some_iff.1 ht
      rw [hl, List.erase_cons_head]
      rw [hl, List.length_cons] at hn
      exact Nat.le_of_succ_le_succ hn

/-- No task waits any longer. -/
theorem initWaitQueue_queue (c : Core) (q : WQueue) :
    (c.initWaitQueue q).1.sched.queue (.wait q) = [] := initWaitQueueLoop_queue q (Nat.le_refl _)

/-- A queue that is empty stays empty where no task enters it. -/
theorem RFrame.queue_nil (h : RFrame N P b c c') (hc' : CoreInv cfg D c') (hc : CoreInv cfg D' c)
    (hD : ∀ t, D t = false → D' t = false) (hq : ¬P q) (hn : c.sched.queue (.wait q) = []) :
    c'.sched.queue (.wait q) = [] := by
  refine List.eq_nil_iff_forall_not_mem.2 fun t ht => ?_
  obtain ⟨hd, hl⟩ := hc'.of_mem ht
  refine hc.loc_ne_wait (t := t) hn ?_
  rw [Core.loc_attached (hD t hd)]
  exact (h.wait t q hq hl).1

theorem ceilpri_setLoctsk (c : Core) (m m' : Nat) (o : Option Nat) :
    (c.setLoctsk m o).ceilpri m' = c.ceilpri m' := by
  unfold Core.setLoctsk Core.ceilpri
  by_cases hm : m' = m
  · subst hm
    simp only [Function.update_self]
  · simp only [Function.update_of_ne hm]

/-- The priority of a task that gets a mutex. -/
def Core.raised (c : Core) (t m : Nat) : Nat :=
  if c.mtxCeiling m ∧ c.ceilpri m < c.priority t then c.ceilpri m else c.priority t

theorem mutexHandOver_tcb (c : Core) (t m : Nat) : (c.mutexHandOver t m).tcb =
    Function.update c.tcb t { c.tcb t with
      priority := c.raised t m
      winfo := { (c.tcb t).winfo with cell := .wercd E_OK } } := by
  have he := (Ending.refl c t).queueDelete.waitDequeueTmevtb.setWercd E_OK
  have h := he.tcb
  unfold Core.mutexHandOver
  generalize (((c.queueDelete t).waitDequeueTmevtb t).setWercd t E_OK) = c1 at he h ⊢
  have hceil : c1.mtxCeiling m = c.mtxCeiling m ∧ c1.ceilpri m = c.ceilpri m := by
    obtain ⟨_, _, _, _, rfl⟩ := he.same
    exact ⟨rfl, rfl⟩
  have hpri : c1.priority t = c.priority t := by
    unfold Core.priority
    rw [h, Function.update_self]
  have hcp : (c1.setLoctsk m (some t)).ceilpri m = c.ceilpri m :=
    (ceilpri_setLoctsk ..).trans hceil.2
  have hcond : (c1.mtxCeiling m = true ∧ (c1.setLoctsk m (some t)).ceilpri m < c1.priority t) ↔
      c.mtxCeiling m = true ∧ c.ceilpri m < c.priority t := by
    rw [hcp, hceil.1, hpri]
  unfold Core.raised
  simp only
  split
  · rename_i hc
    rw [if_pos (hcond.1 hc)]
    change Function.update c1.tcb t
      { c1.tcb t with priority := (c1.setLoctsk m (some t)).ceilpri m } = _
    rw [hcp, h, Function.update_idem, Function.update_self]
  · rename_i hc
    rw [if_neg fun hc' => hc (hcond.2 hc')]
    exact h

theorem mutexHandOver_cpu (c : Core) (t m : Nat) : (c.mutexHandOver t m).cpu = c.cpu ∧
    (c.mutexHandOver t m).sched.pSchedtsk = c.sched.pSchedtsk := by
  have h := (Ending.refl c t).queueDelete.waitDequeueTmevtb.setWercd E_OK
  unfold Core.mutexHandOver
  simp only
  split <;> exact ⟨h.same.cpu, h.top⟩

theorem frame_mutexRelease (h : CoreInv cfg D c) (m : Nat) :
    RFrame N P (c.mutexRelease m).2 c (c.mutexRelease m).1 := by
  unfold Core.mutexRelease
  split
  · exact .of_tcb rfl rfl fun _ => .inl rfl
  · rename_i t ht
    have hr := h.head_not_runnable ht
    have htcb := mutexHandOver_tcb c t m
    obtain ⟨hcpu, htop⟩ := mutexHandOver_cpu c t m
    refine .of_update ((local_makeNonWait _ t).cpu.trans hcpu) (t := t)
      (p := { c.tcb t with
        tstat := (c.tcb t).tstat.nonWait
        priority := c.raised t m
        winfo := { (c.tcb t).winfo with cell := .wercd E_OK } })
      ?_ (fun hb => ?_) (fun q _ hq => ?_) (fun _ hr' => ?_)
    · rw [makeNonWait_tcb, htcb, Function.update_idem, Function.update_self]
    · rw [← htop, ← Core.dspflg_eq hcpu]
      exact Core.makeNonWait_signals _ t hb
    · exact absurd hq (loc_nonWait (p := { c.tcb t with priority := c.raised t m }) q _)
    · rw [hr] at hr'
      cases hr'

theorem frame_mutexReleaseAllLoop (h : CoreInv cfg D c) (n t : Nat) :
    RFrame N P (Core.mutexReleaseAllLoop n c t).2 c (Core.mutexReleaseAllLoop n c t).1 := by
  induction n generalizing c with
  | zero => exact .refl
  | succ n ih =>
    unfold Core.mutexReleaseAllLoop
    split
    · exact .refl
    · rename_i m _ _
      have h1 : CoreInv cfg D (c.mutexUnlink m) := h.flags
      have hu : RFrame N P false c (c.mutexUnlink m) := .of_tcb rfl rfl fun _ => .inl rfl
      have hr := hu.trans (frame_mutexRelease h1 m)
      rw [Bool.false_or] at hr
      exact hr.trans (ih (h1.mutexRelease m))

/-- The end of a detached task. -/
theorem frame_terminate (h : CoreInv cfg D c) (t : Nat) (hN : N t) :
    RFrame N P (c.terminate t).2 c (c.terminate t).1 := by
  have h1 : RFrame N P (if c.mutexQueue t = [] then (c, false) else c.mutexReleaseAll t).2 c
      (if c.mutexQueue t = [] then (c, false) else c.mutexReleaseAll t).1 := by
    split
    · exact .refl
    · exact frame_mutexReleaseAllLoop h _ t
  unfold Core.terminate
  simp only
  generalize (if c.mutexQueue t = [] then (c, false) else c.mutexReleaseAll t) = r at h1 ⊢
  have h2 : RFrame N P false r.1 (r.1.makeDormant t) :=
    .of_update rfl rfl (fun _ => .inl rfl)
      (fun q _ hq => by cases (TCB.loc_eq_wait.1 hq).2.1) (fun hn => absurd hN hn)
  have h3 := h1.trans h2
  rw [Bool.or_false] at h3
  split
  · have h4 : RFrame N P false (r.1.makeDormant t)
        ((r.1.makeDormant t).setTcb t { (r.1.makeDormant t).tcb t with actque := false }) :=
      (frame_setTcb (p := { (r.1.makeDormant t).tcb t with actque := false })
        ⟨rfl, rfl, rfl, rfl, rfl⟩).1
    have h5 := h4.trans (frame_makeActive _ t).1
    rw [Bool.false_or] at h5
    exact h3.trans h5
  · exact h3

end

end AspKernel
